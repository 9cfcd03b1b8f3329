import Geocast.Proofs.Number.Alike

/-!
# Fractions of units rounded to a double

Products, sums and quotients of doubles are all fractions of units, of which fifty-three bits are
kept. So what is known of the rounding of a fraction is known of every result: it is off by a
`2 ^ 53`-th of the fraction at most, or by half a unit where doubles have no more bits.

* `roundFraction`: a fraction of units rounded to that of a double.
* `roundProduct_eq`, `roundWhole_eq`: the roundings of products and of sums are such.
* `roundFraction_error`: how far off a rounded fraction is.
* `extent_div`: where the quotient by a positive finite double is put on the line.
-/
namespace Geocast.Binary64
open Float.Model Float.Model.UnpackedFloat

/-! ## Rounded fractions -/

/-- How many bits the whole part of a fraction has more than a significand. -/
def excess (n d : Nat) : Nat := (n / d).log2 - 52

/-- A fraction of units rounded to that of a double. -/
def roundFraction (n d : Nat) : Nat := roundDiv n (d * 2 ^ excess n d) .even * 2 ^ excess n d

theorem roundFraction_mul (n d : Nat) {c : Nat} (hc : 0 < c) :
    roundFraction (n * c) (d * c) = roundFraction n d := by
  have hexcess : excess (n * c) (d * c) = excess n d := by
    rw [excess, excess, Nat.mul_div_mul_right n d hc]
  rw [roundFraction, roundFraction, hexcess, Nat.mul_right_comm, roundDiv_mul _ _ hc]

theorem log2_div_two_pow (n k : Nat) : (n / 2 ^ k).log2 = n.log2 - k := by
  by_cases h0 : n / 2 ^ k = 0
  · have hlt : n < 2 ^ k := (Nat.div_eq_zero_iff_lt (Nat.two_pow_pos k)).1 h0
    by_cases hn : n = 0
    · rw [hn, Nat.zero_div, Nat.log2_zero, Nat.zero_sub]
    · have := (Nat.log2_lt hn).2 hlt
      rw [h0, Nat.log2_zero]
      omega
  · have hn : n ≠ 0 := fun hn => h0 (by rw [hn, Nat.zero_div])
    obtain ⟨hle, hlt⟩ := (Nat.log2_eq_iff h0).1 rfl
    rw [Nat.le_div_iff_mul_le (Nat.two_pow_pos k), ← Nat.pow_add] at hle
    rw [Nat.div_lt_iff_lt_mul (Nat.two_pow_pos k), ← Nat.pow_add, Nat.add_right_comm] at hlt
    have hlog := (Nat.log2_eq_iff hn).2 ⟨hle, hlt⟩
    omega

/-- A rounded product of magnitudes is a rounded fraction of units. -/
theorem roundProduct_eq (n : Nat) : roundProduct n = roundFraction n (2 ^ 1074) := by
  have hlost : lost n = 1074 + excess n (2 ^ 1074) := by
    rw [lost, excess, log2_div_two_pow]
    omega
  have hcut : ∀ a w : Nat, roundDiv n (2 ^ (a + w)) .even * 2 ^ (a + w - a) =
      roundDiv n (2 ^ a * 2 ^ w) .even * 2 ^ w := by
    intro a w
    rw [Nat.pow_add, Nat.add_sub_cancel_left]
  rw [roundProduct, hlost]
  exact hcut 1074 _

theorem roundWhole_eq (n : Nat) : roundWhole n = roundFraction n 1 := by
  have hscale : ∀ c, 0 < c → roundFraction (n * c) c = roundFraction n 1 := by
    intro c hc
    rw [← roundFraction_mul n 1 hc, Nat.one_mul]
  rw [roundWhole, roundProduct_eq]
  exact hscale _ (by positivity)

theorem roundDiv_near (n : Nat) {d : Nat} (hd : 0 < d) :
    2 * (roundDiv n d .even * d) ≤ 2 * n + d ∧ 2 * n ≤ 2 * (roundDiv n d .even * d) + d := by
  have hmod := Nat.div_add_mod n d
  have hlt := Nat.mod_lt n hd
  have hnext : (n / d + 1) * d = d * (n / d) + d := by ring
  have hthis : n / d * d = d * (n / d) := Nat.mul_comm _ _
  simp only [roundDiv]
  split
  · rw [hthis]
    omega
  · split
    · rw [hnext]
      omega
    · rcases Nat.mod_two_eq_zero_or_one (n / d) with h | h <;> rw [h]
      · rw [Nat.add_zero, hthis]
        omega
      · rw [hnext]
        omega

theorem roundFraction_near (n : Nat) {d : Nat} (hd : 0 < d) :
    2 * (roundFraction n d * d) ≤ 2 * n + d * 2 ^ excess n d ∧
      2 * n ≤ 2 * (roundFraction n d * d) + d * 2 ^ excess n d := by
  have h := roundDiv_near n (Nat.mul_pos hd (Nat.two_pow_pos (excess n d)))
  have hmul : roundFraction n d * d =
      roundDiv n (d * 2 ^ excess n d) .even * (d * 2 ^ excess n d) := by
    rw [roundFraction]
    ring
  rwa [hmul]

/-- Bits are cut off only where fifty-three are left. -/
theorem two_pow_excess_le (n : Nat) {d : Nat} (hd : 0 < d) :
    excess n d = 0 ∨ 2 ^ 52 * (d * 2 ^ excess n d) ≤ n := by
  by_cases h : excess n d = 0
  · exact .inl h
  · right
    have hlog : (n / d).log2 = 52 + excess n d := by
      rw [excess] at h ⊢
      omega
    have hne : n / d ≠ 0 := by
      intro h0
      rw [h0, Nat.log2_zero] at hlog
      omega
    have hle := Nat.log2_self_le hne
    rw [hlog, Nat.pow_add, Nat.le_div_iff_mul_le hd] at hle
    calc 2 ^ 52 * (d * 2 ^ excess n d) = 2 ^ 52 * 2 ^ excess n d * d := by ring
      _ ≤ n := hle

/-- A rounded fraction is off by a `2 ^ 53`-th of the fraction, or by half a unit. -/
theorem roundFraction_error (n : Nat) {d : Nat} (hd : 0 < d) :
    2 ^ 53 * (roundFraction n d * d) ≤ 2 ^ 53 * n + n + 2 ^ 52 * d ∧
      2 ^ 53 * n ≤ 2 ^ 53 * (roundFraction n d * d) + n + 2 ^ 52 * d := by
  obtain ⟨hover, hunder⟩ := roundFraction_near n hd
  rcases two_pow_excess_le n hd with h0 | hle
  · rw [h0, Nat.pow_zero, Nat.mul_one] at hover hunder
    omega
  · omega

/-! ## Quotients of doubles -/

theorem log2_mul_two_pow_div {n d : Nat} (h : n / d ≠ 0) (k : Nat) :
    (n * 2 ^ k / d).log2 = (n / d).log2 + k := by
  have hd : 0 < d := Nat.pos_of_ne_zero fun h0 => h (by rw [h0, Nat.div_zero])
  obtain ⟨hle, hlt⟩ := (Nat.log2_eq_iff h).1 rfl
  rw [Nat.le_div_iff_mul_le hd] at hle
  rw [Nat.div_lt_iff_lt_mul hd] at hlt
  have hscaled : 2 ^ ((n / d).log2 + k) ≤ n * 2 ^ k / d := by
    rw [Nat.le_div_iff_mul_le hd, Nat.pow_add, Nat.mul_right_comm]
    exact Nat.mul_le_mul_right _ hle
  refine (Nat.log2_eq_iff (Nat.ne_of_gt (Nat.lt_of_lt_of_le (Nat.two_pow_pos _) hscaled))).2
    ⟨hscaled, ?_⟩
  rw [Nat.div_lt_iff_lt_mul hd, Nat.add_right_comm, Nat.pow_add, Nat.mul_right_comm]
  exact Nat.mul_lt_mul_of_pos_right hlt (Nat.two_pow_pos k)

/-- The exponent at which the significands of a quotient are divided. -/
def quotientExponent (n : Nat) (d : Int) (m : Nat) (e : Int) : Int :=
  Min.min (d - e) (Max.max ((n.log2 : Int) + d - (m.log2 + e) - 53) (-1074))

theorem divCore_eq (n : Nat) (d : Int) (m : Nat) (e : Int) :
    divCore Format.binary64 n d m e =
      let t := quotientExponent n d m e
      let num := n * 2 ^ (d - e - t).toNat
      (num / m, t, accuracyOfFraction (num % m) m) := by
  have ht : Min.min (d - e) (Format.targetExponent Format.binary64
      (totalExponent n d - totalExponent m e)) = quotientExponent n d m e := by
    simp only [Format.targetExponent, totalExponent, Format.mantissaBits, Format.minExponent,
      quotientExponent]
    norm_num
    omega
  rw [divCore, ht]
  simp only [Nat.shiftLeft_eq]

theorem le_target_div {n m : Nat} {d e : Int} (hn : 0 < n) (hm : 0 < m) :
    let t := quotientExponent n d m e
    t ≤ target (n * 2 ^ (d - e - t).toNat / m) t := by
  intro t
  have ht : t = quotientExponent n d m e := rfl
  rw [quotientExponent] at ht
  by_cases hmin : t ≤ -1074
  · rw [target]
    omega
  · have hshift : m.log2 + 53 ≤ n.log2 + (d - e - t).toNat := by omega
    have hlow : 2 ^ n.log2 ≤ n := Nat.log2_self_le hn.ne'
    have hhigh : m < 2 ^ (m.log2 + 1) := Nat.lt_log2_self
    have hquot : 2 ^ 52 ≤ n * 2 ^ (d - e - t).toNat / m := by
      rw [Nat.le_div_iff_mul_le hm]
      calc 2 ^ 52 * m ≤ 2 ^ 52 * 2 ^ (m.log2 + 1) := Nat.mul_le_mul_left _ hhigh.le
        _ = 2 ^ (m.log2 + 53) := by rw [← Nat.pow_add]; congr 1; omega
        _ ≤ 2 ^ (n.log2 + (d - e - t).toNat) := Nat.pow_le_pow_right (by decide) hshift
        _ = 2 ^ n.log2 * 2 ^ (d - e - t).toNat := Nat.pow_add _ _ _
        _ ≤ n * 2 ^ (d - e - t).toNat := Nat.mul_le_mul_right _ hlow
    have hlog := (Nat.le_log2 (Nat.ne_of_gt (Nat.lt_of_lt_of_le (by decide) hquot))).2 hquot
    rw [target]
    omega

/-- The quotient of two magnitudes is rounded as the quotient of their significands is. -/
theorem roundFraction_magnitude {n m : Nat} {d e : Int} (hn : 0 < n) (hm : 0 < m) (hd : -1074 ≤ d)
    (he : -1074 ≤ e) :
    let t := quotientExponent n d m e
    let num := n * 2 ^ (d - e - t).toNat
    roundFraction (magnitude n d * 2 ^ 1074) (magnitude m e) =
      roundDiv num (m * 2 ^ (target (num / m) t - t).toNat) .even *
        2 ^ (target (num / m) t + 1074).toNat := by
  intro t num
  have ht : t = quotientExponent n d m e := rfl
  have hspare : t ≤ target (num / m) t := le_target_div hn hm
  rw [quotientExponent] at ht
  obtain ⟨a, ha⟩ : ∃ a, a = (e + t + 2148).toNat := ⟨_, rfl⟩
  have hnum : magnitude n d * 2 ^ 1074 = num * 2 ^ a := by
    rw [magnitude, Nat.mul_assoc, Nat.mul_assoc, ← Nat.pow_add, ← Nat.pow_add]
    congr 2
    omega
  have hexcess : excess (num * 2 ^ a) (magnitude m e) = (target (num / m) t + 1074).toNat := by
    rw [excess, magnitude]
    by_cases hsmall : t < -1074
    · obtain ⟨j, hj⟩ : ∃ j, j = (-1074 - t).toNat := ⟨_, rfl⟩
      have hsplit : (e + 1074).toNat = j + a := by omega
      rw [hsplit, Nat.pow_add, ← Nat.mul_assoc, Nat.mul_div_mul_right _ _ (Nat.two_pow_pos a),
        ← Nat.div_div_eq_div_mul, log2_div_two_pow, target]
      omega
    · obtain ⟨j, hj⟩ : ∃ j, j = (t + 1074).toNat := ⟨_, rfl⟩
      have hsplit : a = j + (e + 1074).toNat := by omega
      rw [hsplit, Nat.pow_add, ← Nat.mul_assoc, Nat.mul_div_mul_right _ _ (Nat.two_pow_pos _)]
      by_cases hzero : num / m = 0
      · have hj0 : j = 0 := by
          rw [target, hzero, Nat.log2_zero] at hspare
          omega
        rw [hj0, Nat.pow_zero, Nat.mul_one, hzero, target, Nat.log2_zero]
        omega
      · rw [log2_mul_two_pow_div hzero, target]
        omega
  have hden : magnitude m e * 2 ^ (target (num / m) t + 1074).toNat =
      m * 2 ^ (target (num / m) t - t).toNat * 2 ^ a := by
    have hleast : -1074 ≤ target (num / m) t := Int.le_max_right _ _
    have hpow : (e + 1074).toNat + (target (num / m) t + 1074).toNat =
        (target (num / m) t - t).toNat + a := by omega
    rw [magnitude, Nat.mul_assoc, Nat.mul_assoc, ← Nat.pow_add, ← Nat.pow_add, hpow]
  rw [hnum, roundFraction, hexcess, hden, roundDiv_mul _ _ (Nat.two_pow_pos a)]

/-- The magnitude of a double after it is divided by another one; both are in units. -/
def shrink (k n : Nat) : Nat := Min.min (roundFraction (n * 2 ^ 1074) k) limit

theorem roundFraction_zero (d : Nat) : roundFraction 0 d = 0 := by
  have hquot : ∀ c, roundDiv 0 c .even = 0 := by
    intro c
    simp [roundDiv]
  rw [roundFraction, hquot, Nat.zero_mul]

theorem shrink_zero (k : Nat) : shrink k 0 = 0 := by
  rw [shrink, Nat.zero_mul, roundFraction_zero, Nat.zero_min]

theorem reach_div {n m : Nat} {d e : Int} {s : Sign} {hn : 0 < n} {hm : 0 < m}
    (hu : Fits (.finite s n d hn)) (hv : Fits (.finite .positive m e hm)) :
    reach (repack (UnpackedFloat.div Format.binary64 (.finite s n d hn)
        (.finite .positive m e hm))) = s.apply (shrink (magnitude m e) (magnitude n d) : Nat) := by
  have hsign : s / .positive = s := by cases s <;> rfl
  rw [UnpackedFloat.div, divCore_eq]
  dsimp only
  rw [hsign, reach_repack_fraction s hm (le_target_div hn hm), shrink,
    roundFraction_magnitude hn hm hu.le hv.le]

theorem extent_div {x y : Float} {m : Nat} {e : Int} {hm : 0 < m} (hx : x.isFinite = true)
    (hy : y.toModel.unpack = .finite .positive m e hm) :
    extent (x / y) = oddly (shrink (magnitude m e)) (extent x) := by
  have hfy := fits_unpack y
  have hfx := fits_unpack x
  rw [hy] at hfy
  rw [extent, extent, unpack_div, hy]
  rcases parts_of_isFinite hx with ⟨s, hs⟩ | ⟨s, n, d, hn, hs⟩
  · rw [hs, UnpackedFloat.div, repack_zero, reach, reach, oddly, if_neg (by decide),
      Int.natAbs_zero, shrink_zero]
    rfl
  · rw [hs] at hfx ⊢
    rw [reach_div hfx hfy, reach, oddly_apply (shrink_zero _)]

theorem isNaN_div {x y : Float} {m : Nat} {e : Int} {hm : 0 < m} (hx : x.isFinite = true)
    (hy : y.toModel.unpack = .finite .positive m e hm) : (x / y).isNaN = false := by
  change (x / y).toModel.unpack.isNaN = false
  rw [isNaN_eq, unpack_div, hy, signOf_repack]
  rcases parts_of_isFinite hx with ⟨s, hs⟩ | ⟨s, n, d, hn, hs⟩ <;> rw [hs, UnpackedFloat.div]
  · rfl
  · rw [signOf_roundWithAccuracy]
    rfl

end Geocast.Binary64
