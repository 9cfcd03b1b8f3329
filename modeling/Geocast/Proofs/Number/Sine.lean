import Geocast.Proofs.Number.Accuracy
import Geocast.Proofs.Number.Series

/-!
# Accuracy of sine and cosine

The fixed-point numbers of the elementary functions stand for numbers, and the sums, the quarter
turn and the angles that are left after a quarter turn is taken off are all next to the true ones.
So the sine of a double up to half a turn and the cosine of one up to a quarter turn are off by
`2 * eps` at most: `eps` for the last rounding, and less than that for everything before.

* `cosSmall_near`, `sinSmall_near`, `sinAcute_near`: sums in fixed point.
* `quarterTurn_near`, `quarterTurns_near`: quarter turns.
* `abs_value_sin_sub_le`, `abs_value_cos_sub_le`: the functions of doubles.
-/
namespace Geocast.Trigonometry
open Binary64

/-! ## Fixed-point angles -/

/-- The number that a fixed-point number stands for. -/
noncomputable def fixed (m : Nat) : ℝ := m / one

theorem fixed_nonneg (m : Nat) : 0 ≤ fixed m := div_nonneg (Nat.cast_nonneg m) one_pos.le

theorem fixed_le {m n : Nat} (h : m ≤ n) : fixed m ≤ fixed n :=
  div_le_div_of_nonneg_right (by exact_mod_cast h) one_pos.le

theorem fixed_sub {m n : Nat} (h : n ≤ m) : fixed (m - n) = fixed m - fixed n := by
  rw [fixed, Nat.cast_sub h, sub_div, fixed, fixed]

theorem fixed_one : fixed one = 1 := div_self one_pos.ne'

theorem sqrt_fixed_mul_self (r : Nat) :
    0 ≤ fixed r - √(fixed (mul r r)) ∧ fixed r - √(fixed (mul r r)) ≤ 1 / 2 ^ 64 := by
  have hr := fixed_nonneg r
  have hy := fixed_nonneg (mul r r)
  obtain ⟨hlow, hhigh⟩ := mul_near r r
  have hsquare : fixed (mul r r) ≤ fixed r ^ 2 ∧
      fixed r ^ 2 ≤ fixed (mul r r) + (1 / 2 ^ 64) ^ 2 := by
    have hpos := one_pos
    have hone := one_eq
    have hscaled : fixed r ^ 2 = r * (r / one) / one := by
      rw [fixed]
      ring
    constructor
    · rw [hscaled]
      exact div_le_div_of_nonneg_right hlow hpos.le
    · have := div_le_div_of_nonneg_right hhigh hpos.le
      rw [add_div] at this
      rw [hscaled]
      refine this.trans (add_le_add (le_refl _) ?_)
      rw [hone]
      norm_num
  have hroot := Real.sqrt_nonneg (fixed (mul r r))
  have hsq := Real.sq_sqrt hy
  have hle : √(fixed (mul r r)) ≤ fixed r := Real.sqrt_le_iff.2 ⟨hr, hsquare.1⟩
  refine ⟨sub_nonneg.2 hle, ?_⟩
  refine le_of_sq_le_sq (b := 1 / 2 ^ 64) ?_ (by positivity)
  nlinarith

/-- A sum of sixty-four terms in fixed point. -/
theorem sum_near {r term k : Nat} (hr : r ≤ one) (hterm : term ≤ one) (hk : 0 < k) :
    |fixed (alternating (mul r r) 64 term k).toNat - fixed term * tail k (fixed (mul r r))| ≤
      1 / 2 ^ 62 := by
  have hpos := one_pos
  have hone := one_eq
  have herror := abs_alternating_sub_le (mul_self_le_one hr) 64 term hk
  have hnonneg := (alternating_range (mul_self_le_one hr) 64 term k).1
  have hcast : ((alternating (mul r r) 64 term k).toNat : ℝ) = alternating (mul r r) 64 term k := by
    rw [← Int.cast_natCast, Int.toNat_of_nonneg hnonneg]
  have hterm' : (term : ℝ) ≤ one := by exact_mod_cast hterm
  have hscaled : |fixed (alternating (mul r r) 64 term k).toNat -
      fixed term * tail k (fixed (mul r r))| * one =
        |(alternating (mul r r) 64 term k : ℝ) - term * tail k (fixed (mul r r))| := by
    conv_lhs => rw [← abs_of_pos hpos, ← abs_mul, sub_mul]
    rw [fixed, fixed, hcast, div_mul_cancel₀ _ hpos.ne', mul_right_comm,
      div_mul_cancel₀ _ hpos.ne']
  refine le_of_mul_le_mul_right ?_ hpos
  rw [hscaled, fixed]
  rw [hone] at hterm'
  calc |(alternating (mul r r) 64 term k : ℝ) - term * tail k (mul r r / one)|
      ≤ 4 * (64 : Nat) + 2 * term / 2 ^ 64 := herror
    _ ≤ 4 * (64 : Nat) + 2 * 2 ^ 128 / 2 ^ 64 := by gcongr
    _ ≤ 1 / 2 ^ 62 * one := by
        rw [hone]
        norm_num

theorem cosSmall_near {r : Nat} (hr : r ≤ one) :
    |fixed (cosSmall r) - Real.cos (fixed r)| ≤ 1 / 2 ^ 61 := by
  have hsum := sum_near hr (le_refl one) Nat.one_pos
  obtain ⟨hlow, hhigh⟩ := sqrt_fixed_mul_self r
  have hcos := Real.abs_cos_sub_cos_le (√(fixed (mul r r))) (fixed r)
  rw [abs_sub_comm √(fixed (mul r r)), abs_of_nonneg hlow] at hcos
  rw [fixed_one, one_mul, ← Real.sq_sqrt (fixed_nonneg (mul r r)), ← cos_eq_tail] at hsum
  have htri := abs_sub_le (fixed (cosSmall r)) (Real.cos √(fixed (mul r r))) (Real.cos (fixed r))
  rw [cosSmall] at htri ⊢
  have hsize : (1 / 2 ^ 62 + 1 / 2 ^ 64 : ℝ) ≤ 1 / 2 ^ 61 := by norm_num
  linarith

theorem sinSmall_near {r : Nat} (hr : r ≤ one) :
    |fixed (sinSmall r) - Real.sin (fixed r)| ≤ 1 / 2 ^ 61 := by
  have hsum := sum_near hr hr Nat.two_pos
  obtain ⟨hlow, hhigh⟩ := sqrt_fixed_mul_self r
  have hy := fixed_nonneg (mul r r)
  have hy' : fixed (mul r r) ≤ 1 := fixed_one ▸ fixed_le (mul_self_le_one hr)
  have hbound := abs_tail_le hy hy' Nat.two_pos
  have hsin := Real.abs_sin_sub_sin_le (√(fixed (mul r r))) (fixed r)
  have hroot := sin_eq_tail √(fixed (mul r r))
  rw [Real.sq_sqrt hy] at hroot
  rw [abs_sub_comm √(fixed (mul r r)), abs_of_nonneg hlow] at hsin
  have hangle : |fixed r * tail 2 (fixed (mul r r)) - Real.sin √(fixed (mul r r))| ≤
      1 / 2 ^ 64 * 2 := by
    rw [hroot, ← sub_mul, abs_mul, abs_of_nonneg hlow]
    exact mul_le_mul hhigh hbound (abs_nonneg _) (by positivity)
  have htri := abs_sub_le (fixed (sinSmall r)) (fixed r * tail 2 (fixed (mul r r)))
    (Real.sin (fixed r))
  have htri' := abs_sub_le (fixed r * tail 2 (fixed (mul r r))) (Real.sin √(fixed (mul r r)))
    (Real.sin (fixed r))
  rw [sinSmall] at htri ⊢
  have hsize : (1 / 2 ^ 62 + (1 / 2 ^ 64 * 2 + 1 / 2 ^ 64) : ℝ) ≤ 1 / 2 ^ 61 := by norm_num
  linarith

/-! ## The number pi -/

/-- A number with the first twenty digits of a quarter turn. -/
theorem near_quarter {t : ℝ} (hlow : 157079632679489661923 ≤ 10 ^ 20 * t)
    (hhigh : 10 ^ 20 * t ≤ 157079632679489661924) : |t - Real.pi / 2| ≤ 1 / 2 ^ 64 := by
  have hpi := Real.pi_gt_d20
  have hpi' := Real.pi_lt_d20
  rw [abs_le]
  norm_num at hpi hpi' hlow hhigh ⊢
  constructor <;> linarith

theorem near_quarter_of_nat {m n : Nat} (hn : 0 < n)
    (hlow : 157079632679489661923 * n ≤ 10 ^ 20 * m)
    (hhigh : 10 ^ 20 * m ≤ 157079632679489661924 * n) :
    |(m / n : ℝ) - Real.pi / 2| ≤ 1 / 2 ^ 64 := by
  have hpos : (0 : ℝ) < n := by exact_mod_cast hn
  have hlow' : (157079632679489661923 * n : ℝ) ≤ 10 ^ 20 * m := by exact_mod_cast hlow
  have hhigh' : (10 ^ 20 * m : ℝ) ≤ 157079632679489661924 * n := by exact_mod_cast hhigh
  refine near_quarter ?_ ?_
  · rwa [← mul_div_assoc, le_div_iff₀ hpos]
  · rwa [← mul_div_assoc, div_le_iff₀ hpos]

theorem quarterTurn_near : |fixed quarterTurn - Real.pi / 2| ≤ 1 / 2 ^ 64 := by
  have hone : 0 < one := one_eq_two_pow ▸ Nat.two_pow_pos precision
  exact near_quarter_of_nat hone quarterTurn_digits.1 quarterTurn_digits.2

theorem sinAcute_near {r : Nat} (hr : r ≤ quarterTurn) :
    |fixed (sinAcute r) - Real.sin (fixed r)| ≤ 1 / 2 ^ 60 := by
  have hquarter := quarterTurn_le
  rw [sinAcute]
  split
  next hsmall =>
    refine (sinSmall_near (by omega)).trans ?_
    norm_num
  next hlarge =>
    have hnear := cosSmall_near (r := quarterTurn - r) (by omega)
    have hcos := Real.abs_cos_sub_cos_le (fixed quarterTurn - fixed r) (Real.pi / 2 - fixed r)
    rw [Real.cos_pi_div_two_sub, sub_sub_sub_cancel_right] at hcos
    rw [fixed_sub hr] at hnear
    have htri := abs_sub_le (fixed (cosSmall (quarterTurn - r)))
      (Real.cos (fixed quarterTurn - fixed r)) (Real.sin (fixed r))
    have hsize : (1 / 2 ^ 61 + 1 / 2 ^ 64 : ℝ) ≤ 1 / 2 ^ 60 := by norm_num
    have := quarterTurn_near
    linarith

/-! ## Quarter turns -/

/-- The size of an angle up to half a turn, and not tiny. -/
structure UpToHalfTurn (x : Float) : Prop where
  isFinite : x.isFinite = true
  le : (extent x).natAbs ≤ (extent (Location.toRadians 360.0 / 2.0)).natAbs
  notTiny : ¬ x.abs < tiny

theorem halfTurn_lt : 10 ^ 20 * (extent (Location.toRadians 360.0 / 2.0)).natAbs <
    2 * 157079632679489661923 * 2 ^ 1074 := by
  decide +kernel

theorem halfTurn_lt_turns {bits turn : Nat} (hbits : bits ≤ 1074)
    (hturn : 157079632679489661923 * 2 ^ bits ≤ 10 ^ 20 * turn) :
    (extent (Location.toRadians 360.0 / 2.0)).natAbs < 2 * turn * 2 ^ (1074 - bits) := by
  have hsplit : ∀ {a b : Nat}, a ≤ b → 2 ^ b = 2 ^ a * 2 ^ (b - a) := by
    intro a b h
    rw [← Nat.pow_add, Nat.add_sub_cancel' h]
  have hshort := halfTurn_lt
  have hscaled := Nat.mul_le_mul_right (2 ^ (1074 - bits)) hturn
  rw [hsplit hbits] at hshort
  generalize (extent (Location.toRadians 360.0 / 2.0)).natAbs = n at hshort ⊢
  generalize 2 ^ (1074 - bits) = c at hshort hscaled ⊢
  rw [Nat.mul_assoc] at hscaled
  rw [Nat.mul_assoc] at hscaled ⊢
  omega

/-- What is left of an angle after a quarter turn is taken off, with fewer bits. -/
theorem remainder_near {angle turn cut : Nat} (hquotient : angle / turn ≤ 1)
    (hturn : |(turn / (2 ^ (cut + precision) : Nat) : ℝ) - Real.pi / 2| ≤ 1 / 2 ^ 64) :
    |fixed (angle % turn / 2 ^ cut) -
      (angle / (2 ^ (cut + precision) : Nat) - (angle / turn : Nat) * (Real.pi / 2))| ≤
        1 / 2 ^ 62 := by
  have hrest := natDiv_near (angle % turn) (Nat.two_pow_pos cut)
  have hmod : ((angle % turn : Nat) : ℝ) = angle - turn * (angle / turn : Nat) := by
    rw [eq_sub_iff_add_eq']
    exact_mod_cast Nat.div_add_mod angle turn
  have hpow : ((2 ^ (cut + precision) : Nat) : ℝ) = 2 ^ cut * 2 ^ 128 := by
    rw [Nat.cast_pow, Nat.cast_ofNat, pow_add, precision]
  rw [Nat.cast_pow, Nat.cast_ofNat, hmod] at hrest
  rw [hpow] at hturn ⊢
  rw [fixed, one_eq]
  generalize (angle % turn / 2 ^ cut : Nat) = rest at hrest ⊢
  generalize angle / turn = q at hquotient hrest ⊢
  have hsplit : (rest / 2 ^ 128 - (angle / (2 ^ cut * 2 ^ 128) - q * (Real.pi / 2)) : ℝ) =
      (rest - (angle - turn * q) / 2 ^ cut) / 2 ^ 128 -
        q * (turn / (2 ^ cut * 2 ^ 128) - Real.pi / 2) := by ring
  have hcut : |(rest - (angle - turn * q) / 2 ^ cut : ℝ) / 2 ^ 128| ≤ 1 / 2 ^ 128 := by
    rw [abs_div, abs_of_pos (by positivity : (0 : ℝ) < 2 ^ 128)]
    refine div_le_div_of_nonneg_right (abs_le.2 ⟨?_, ?_⟩) (by positivity) <;> linarith
  have hturns : |(q * (turn / (2 ^ cut * 2 ^ 128) - Real.pi / 2) : ℝ)| ≤ 1 * (1 / 2 ^ 64) := by
    have hq : |(q : ℝ)| ≤ 1 := by
      rw [Nat.abs_cast]
      exact_mod_cast hquotient
    rw [abs_mul]
    exact mul_le_mul hq hturn (abs_nonneg _) zero_le_one
  rw [hsplit]
  refine (abs_sub _ _).trans ((add_le_add hcut hturns).trans ?_)
  norm_num

section Reduce
variable {x : Float} (h : UpToHalfTurn x)
include h

theorem turnBits_cases : turnBits x = 192 ∨ turnBits x = 193 := by
  have hround : ∀ {n a b : Nat}, b = a + 2 → 10 ^ 20 * n < 2 * 157079632679489661923 * 2 ^ a →
      n < 2 ^ b := by
    intro n a b hb h
    rw [hb, Nat.pow_add]
    omega
  have hcap := hround (show 52 + 1024 = 1074 + 2 from rfl) halfTurn_lt
  have hexponent : exponentField x ≤ 1024 :=
    exponentField_le ((unitsAbs_eq h.isFinite).trans_lt (h.le.trans_lt hcap))
  have hbits : turnBits x = Min.min 1216 (192 + (exponentField x - 1023)) := rfl
  omega

/-- An angle that is not tiny has no bits past those that are kept. -/
theorem angle_exact : (significand x <<< (turnBits x + scale x - 1074)) * 2 ^ (1074 - turnBits x) =
    (extent x).natAbs := by
  have hbits := turnBits_cases h
  have hscale : 882 ≤ scale x := by
    by_contra hlow
    have htiny := tiny_range.1
    have hlarge : extent tiny ≤ (extent x).natAbs := by
      by_contra hless
      refine h.notTiny (lt_iff.2 ⟨?_, rfl, ?_⟩)
      · exact isNaN_of_isFinite (isFinite_abs h.isFinite)
      · rw [extent_abs]
        omega
    have hsmall : ∀ {k : Nat}, scale x ≤ k → unitsAbs x < 2 ^ 53 * 2 ^ k := by
      intro k hk
      rw [unitsAbs, Nat.shiftLeft_eq]
      exact Nat.mul_lt_mul_of_lt_of_le (significand_lt x) (Nat.pow_le_pow_right (by decide) hk)
        (Nat.two_pow_pos k)
    have hcut := hsmall (Nat.not_le.1 hlow).le
    rw [unitsAbs_eq h.isFinite] at hcut
    generalize 2 ^ 53 * 2 ^ 882 = c at htiny hcut
    omega
  have hsplit : turnBits x + scale x - 1074 + (1074 - turnBits x) = scale x := by omega
  rw [← unitsAbs_eq h.isFinite, unitsAbs, Nat.shiftLeft_eq, Nat.shiftLeft_eq, Nat.mul_assoc,
    ← Nat.pow_add, hsplit]

theorem abs_value_eq_angle : |value x| =
    (significand x <<< (turnBits x + scale x - 1074) : Nat) / (2 ^ turnBits x : Nat) := by
  have hbits := turnBits_cases h
  have hunit := unit_split (show turnBits x + (1074 - turnBits x) = 1074 by omega)
  have hscale : ((2 ^ (1074 - turnBits x) : Nat) : ℝ) ≠ 0 :=
    Nat.cast_ne_zero.2 (Nat.two_pow_pos _).ne'
  rw [abs_value, ← angle_exact h, hunit, Nat.cast_mul, mul_div_mul_right _ _ hscale]

/-- At most one quarter turn is taken off such an angle, and the rest is known to many digits. -/
theorem quarterTurns_near : (quarterTurns x).1 ≤ 1 ∧ (quarterTurns x).2 ≤ quarterTurn ∧
    |fixed (quarterTurns x).2 - (|value x| - (quarterTurns x).1 * (Real.pi / 2))| ≤ 1 / 2 ^ 62 := by
  have hbits := turnBits_cases h
  have hexact := angle_exact h
  have hprecision : precision = 128 := rfl
  have hwidest : widePrecision = 1216 := rfl
  obtain ⟨hlow, hhigh⟩ := turn_digits (show precision ≤ turnBits x by omega) (by omega)
  have hcap := halfTurn_lt_turns (show turnBits x ≤ 1074 by omega) hlow
  have hwide : turnBits x - precision + (widePrecision - turnBits x) =
      widePrecision - precision := by
    omega
  have hquarter : halfPi >>> (widePrecision - turnBits x) >>> (turnBits x - precision) =
      quarterTurn := by
    rw [← Nat.shiftRight_add, Nat.add_comm, hwide, quarterTurn]
  rw [abs_value_eq_angle h]
  unfold quarterTurns
  dsimp only
  generalize significand x <<< (turnBits x + scale x - 1074) = angle at hexact ⊢
  generalize halfPi >>> (widePrecision - turnBits x) = turn at hlow hhigh hcap hquarter ⊢
  generalize turnBits x = bits at *
  obtain ⟨cut, rfl⟩ : ∃ cut, bits = cut + precision := ⟨bits - precision, by omega⟩
  have hturn : 0 < turn := by
    by_contra hzero
    obtain rfl : turn = 0 := by omega
    rw [Nat.mul_zero, Nat.zero_mul] at hcap
    omega
  have hless : angle < 2 * turn := by
    refine Nat.lt_of_mul_lt_mul_right (a := 2 ^ (1074 - (cut + precision))) ?_
    rw [hexact]
    exact h.le.trans_lt hcap
  have hquotient : angle / turn ≤ 1 := Nat.le_of_lt_succ ((Nat.div_lt_iff_lt_mul hturn).2 hless)
  have hpi := near_quarter_of_nat (Nat.two_pow_pos (cut + precision)) hlow hhigh
  rw [Nat.add_sub_cancel, Nat.shiftRight_eq_div_pow] at hquarter ⊢
  refine ⟨hquotient, ?_, remainder_near hquotient hpi⟩
  rw [← hquarter]
  exact Nat.div_le_div_right (Nat.mod_lt angle hturn).le

end Reduce

/-! ## Sines and cosines of doubles -/

/-- A fixed-point number up to one is rounded by half the distance of doubles below one at most. -/
theorem value_nearest {m : Nat} (h : m ≤ one) :
    |value (nearest false m (-precision)) - fixed m| ≤ eps + 1 / 2 ^ 100 := by
  have hle : fixed m ≤ 1 := fixed_one ▸ fixed_le h
  have hnonneg := fixed_nonneg m
  have hscaled : fixed m * unit = (fixedUnits m : Int) := by
    have hpos := one_pos
    rw [unit_split (show precision + (1074 - precision) = 1074 by decide), ← one_eq_two_pow, fixed,
      ← mul_assoc, div_mul_cancel₀ _ hpos.ne', fixedUnits, Int.cast_natCast, Nat.cast_mul]
  have hsmall := abs_mul_unit_le (v := fixed m) (by rw [abs_of_nonneg hnonneg]; linarith)
  have herror : |value (nearest false m (-precision)) - fixed m| ≤ slack (fixed m) := by
    refine abs_value_sub_le ?_
    rw [hscaled] at hsmall ⊢
    rw [(extent_nearest false m).2]
    exact abs_rounded_sub_le hsmall
  refine herror.trans (add_le_add ?_ (le_refl _))
  rw [abs_of_nonneg hnonneg]
  exact mul_le_of_le_one_left eps_pos.le hle

theorem value_nearest_near {m : Nat} {v : ℝ} (h : m ≤ one) (hnear : |fixed m - v| ≤ 1 / 2 ^ 59) :
    |value (nearest false m (-precision)) - v| ≤ 2 * eps := by
  have hsize : 1 / 2 ^ 59 + 1 / 2 ^ 100 ≤ eps := by
    rw [eps]
    norm_num
  have hround := value_nearest h
  have htri := abs_sub_le (value (nearest false m (-precision))) (fixed m) v
  linarith

theorem abs_sub_sin_le {t : ℝ} (h : |t| ≤ 1 / 2 ^ 26) : |t - Real.sin t| ≤ eps := by
  have hcube : ∀ {t : ℝ}, 0 ≤ t → t ≤ 1 / 2 ^ 26 → |t - Real.sin t| ≤ eps := by
    intro t hpos hle
    have hsin := Real.sin_le hpos
    have hthird : t ^ 3 ≤ (1 / 2 ^ 26) ^ 3 := pow_le_pow_left₀ hpos hle 3
    have hbelow : t - t ^ 3 / 6 ≤ Real.sin t := by
      rcases hpos.lt_or_eq with hlt | rfl
      · exact (Real.sin_gt_sub_cube hlt).le
      · simp
    rw [abs_of_nonneg (sub_nonneg.2 hsin), eps]
    norm_num at hthird ⊢
    linarith
  rcases le_total 0 t with hpos | hneg
  · exact hcube hpos (by rwa [abs_of_nonneg hpos] at h)
  · have hturned := hcube (neg_nonneg.2 hneg) (by rwa [abs_of_nonpos hneg] at h)
    rwa [Real.sin_neg, neg_sub_neg, abs_sub_comm] at hturned

theorem abs_one_sub_cos_le {t : ℝ} (h : |t| ≤ 1 / 2 ^ 26) : |1 - Real.cos t| ≤ eps := by
  have hbelow := Real.one_sub_sq_div_two_le_cos (x := t)
  have hsquare : t ^ 2 ≤ (1 / 2 ^ 26) ^ 2 := by
    rw [← sq_abs]
    exact pow_le_pow_left₀ (abs_nonneg _) h 2
  rw [abs_of_nonneg (sub_nonneg.2 (Real.cos_le_one t)), eps]
  norm_num at hsquare ⊢
  linarith

theorem abs_value_of_tiny {x : Float} (h : x.abs < tiny) : |value x| ≤ 1 / 2 ^ 26 := by
  have htiny := tiny_range.2
  have hlt := (lt_iff.1 h).2.2
  rw [extent_abs] at hlt
  have hle : (extent x).natAbs * 2 ^ 26 ≤ 2 ^ 1074 :=
    (Nat.mul_le_mul_right _ (by omega)).trans htiny
  have hcast : ((extent x).natAbs * 2 ^ 26 : ℝ) ≤ unit := by
    have := Nat.cast_le (α := ℝ).2 hle
    rwa [natCast_unit, Nat.cast_mul, Nat.cast_pow, Nat.cast_ofNat] at this
  rw [abs_value, div_le_div_iff₀ unit_pos (by positivity), one_mul]
  exact hcast

theorem value_eq {x : Float} (h : x.isFinite = true) :
    value x = if isNegative x then -|value x| else |value x| := by
  rw [abs_value, ← unitsAbs_eq h, value, extent_eq_units h, units]
  split
  · rw [Int.cast_neg, Int.cast_natCast, neg_div]
  · rw [Int.cast_natCast]

/-- What an acute angle leaves of a quarter turn has the cosine of the angle for its sine. -/
theorem sinAcute_complement {rest : Nat} {t : ℝ} (h : rest ≤ quarterTurn)
    (hnear : |fixed rest - t| ≤ 1 / 2 ^ 62) :
    |fixed (sinAcute (quarterTurn - rest)) - Real.cos t| ≤ 1 / 2 ^ 59 := by
  have hacute := sinAcute_near (Nat.sub_le quarterTurn rest)
  have hangle : |fixed (quarterTurn - rest) - (Real.pi / 2 - t)| ≤ 1 / 2 ^ 64 + 1 / 2 ^ 62 := by
    have hsplit : fixed (quarterTurn - rest) - (Real.pi / 2 - t) =
        fixed quarterTurn - Real.pi / 2 - (fixed rest - t) := by
      rw [fixed_sub h]
      ring
    rw [hsplit]
    exact (abs_sub _ _).trans (add_le_add quarterTurn_near hnear)
  have hsin := Real.abs_sin_sub_sin_le (fixed (quarterTurn - rest)) (Real.pi / 2 - t)
  rw [Real.sin_pi_div_two_sub] at hsin
  have htri := abs_sub_le (fixed (sinAcute (quarterTurn - rest)))
    (Real.sin (fixed (quarterTurn - rest))) (Real.cos t)
  have hsize : (1 / 2 ^ 60 + (1 / 2 ^ 64 + 1 / 2 ^ 62) : ℝ) ≤ 1 / 2 ^ 59 := by norm_num
  linarith

theorem sinAcute_reduced {x : Float} (h : UpToHalfTurn x) :
    let acute := if (quarterTurns x).1 % 2 = 0 then (quarterTurns x).2
      else quarterTurn - (quarterTurns x).2
    |fixed (sinAcute acute) - Real.sin (|value x|)| ≤ 1 / 2 ^ 59 := by
  obtain ⟨hturns, hrest, hnear⟩ := quarterTurns_near h
  generalize (quarterTurns x).1 = turns at *
  generalize (quarterTurns x).2 = rest at *
  interval_cases turns
  · rw [Nat.cast_zero, zero_mul, sub_zero] at hnear
    have hacute := sinAcute_near hrest
    have hsin := Real.abs_sin_sub_sin_le (fixed rest) (|value x|)
    have htri := abs_sub_le (fixed (sinAcute rest)) (Real.sin (fixed rest)) (Real.sin (|value x|))
    have hsize : (1 / 2 ^ 60 + 1 / 2 ^ 62 : ℝ) ≤ 1 / 2 ^ 59 := by norm_num
    rw [Nat.zero_mod, if_pos rfl]
    linarith
  · rw [Nat.cast_one, one_mul] at hnear
    rw [if_neg (by decide), ← Real.cos_sub_pi_div_two]
    exact sinAcute_complement hrest hnear

/-- The sine of an angle up to half a turn. -/
theorem abs_value_sin_sub_le {x : Float} (hx : x.isFinite = true)
    (hle : (extent x).natAbs ≤ (extent (Location.toRadians 360.0 / 2.0)).natAbs) :
    |value (sin x) - Real.sin (value x)| ≤ 2 * eps := by
  have heps := eps_pos
  unfold sin
  rw [hx, Bool.not_true, if_neg Bool.false_ne_true]
  split
  next htiny =>
    have := abs_sub_sin_le (abs_value_of_tiny htiny)
    linarith
  next htiny =>
    have hhalf : UpToHalfTurn x := ⟨hx, hle, htiny⟩
    have hreduced := sinAcute_reduced hhalf
    have hturns := (quarterTurns_near hhalf).1
    have hsign : (isNegative x != decide (2 ≤ (quarterTurns x).1 % 4)) = isNegative x := by
      rw [decide_eq_false (by omega)]
      exact Bool.bne_false _
    dsimp only at hreduced ⊢
    rw [hsign, ← apply_ite sinAcute]
    generalize (if (quarterTurns x).1 % 2 = 0 then (quarterTurns x).2
      else quarterTurn - (quarterTurns x).2) = acute at hreduced ⊢
    have hplus := value_nearest_near (sinAcute_le acute) hreduced
    rw [value_eq hx]
    cases isNegative x with
    | false => exact hplus
    | true =>
      have hturned : nearest true (sinAcute acute) (-precision) =
          -nearest false (sinAcute acute) (-precision) := nearest_not false _ _
      rw [hturned, value_neg, if_pos rfl, Real.sin_neg, neg_sub_neg, abs_sub_comm]
      exact hplus

theorem natAbs_le_halfTurn {x : Float} (h : WithinQuarter x) :
    (extent x).natAbs ≤ (extent (Location.toRadians 360.0 / 2.0)).natAbs := by
  have hlow : -extent (Location.toRadians (-90.0)) ≤
      (extent (Location.toRadians 360.0 / 2.0)).natAbs := by decide +kernel
  have hhigh : extent (Location.toRadians 90.0) ≤
      (extent (Location.toRadians 360.0 / 2.0)).natAbs := by decide +kernel
  have hbelow := (le_iff.1 h.1).2.2
  have habove := (le_iff.1 h.2).2.2
  omega

theorem abs_value_cos_sub_le {x : Float} (h : WithinQuarter x) :
    |value (cos x) - Real.cos (value x)| ≤ 2 * eps := by
  have heps := eps_pos
  have hx : x.isFinite = true := isFinite_of_between rfl rfl h.1 h.2
  unfold cos
  rw [hx, Bool.not_true, if_neg Bool.false_ne_true]
  split
  next htiny =>
    have := abs_one_sub_cos_le (abs_value_of_tiny htiny)
    rw [value_one]
    linarith
  next htiny =>
    obtain ⟨-, hrest, hnear⟩ := quarterTurns_near ⟨hx, natAbs_le_halfTurn h, htiny⟩
    have hturns := quarterTurns_of_within h
    rw [hturns, Nat.cast_zero, zero_mul, sub_zero] at hnear
    have hacute := sinAcute_complement hrest hnear
    rw [Real.cos_abs] at hacute
    dsimp only
    rw [hturns, Nat.zero_mod, if_pos rfl]
    exact value_nearest_near (sinAcute_le _) hacute

end Geocast.Trigonometry
