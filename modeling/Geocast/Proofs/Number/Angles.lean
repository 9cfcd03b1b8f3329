import Geocast.Location
import Geocast.Proofs.Number.Sign

/-!
# Signs of sines, cosines and arcsines

Sines, cosines and arcsines are computed from the magnitude of an angle and get a sign at the end.
Up to a quarter turn no quarter is taken off, so sine and cosine have no minus sign there.

* `WithinQuarter`: an angle up to a quarter turn to either side.
* `quarterTurns_of_within`: no quarter is taken off it.
* `plus_sin`, `plus_cos`, `plus_arcsin`: functions without a minus sign.
-/
namespace Geocast.Trigonometry
open Binary64

/-! ## Angles up to a quarter turn -/

/-- An angle is at most a quarter turn to either side. -/
def WithinQuarter (x : Float) : Prop := Location.toRadians (-90.0) ≤ x ∧ x ≤ Location.toRadians 90.0

theorem toRadians_le {x y : Float} (h : x ≤ y) : Location.toRadians x ≤ Location.toRadians y := by
  obtain ⟨m, e, hm, hdegree⟩ : ∃ m e hm, Location.degree.toModel.unpack =
      .finite .positive m e hm := ⟨_, _, _, rfl⟩
  exact mul_le_mul_of_le hdegree h

theorem unitsAbs_eq {x : Float} (h : x.isFinite = true) : unitsAbs x = (extent x).natAbs := by
  rw [extent_eq_units h, units]
  split
  · rw [Int.natAbs_neg, Int.natAbs_natCast]
  · rw [Int.natAbs_natCast]

theorem exponentField_le {x : Float} {k : Nat} (h : unitsAbs x < 2 ^ (52 + k)) :
    exponentField x ≤ k := by
  by_contra hlarge
  have hfull : 2 ^ 52 ≤ significand x := by
    rw [significand, if_neg (by omega)]
    exact Nat.le_add_right _ _
  have hscale : k ≤ scale x := by
    rw [scale]
    omega
  have hle : 2 ^ 52 * 2 ^ k ≤ unitsAbs x := by
    rw [unitsAbs, Nat.shiftLeft_eq]
    exact Nat.mul_le_mul hfull (Nat.pow_le_pow_right (by decide) hscale)
  rw [← Nat.pow_add] at hle
  omega

theorem significand_lt (x : Float) : significand x < 2 ^ 53 := by
  have hfraction : fractionField x ≤ 0xFFFFFFFFFFFFF := by
    rw [fractionField, UInt64.toNat_and]
    exact Nat.and_le_right
  rw [significand]
  split <;> omega

/-- The bits with which a quarter turn is taken off angles below two. -/
def turnPrecision : Nat := precision + 64

theorem quarterTurns_of_within {x : Float} (h : WithinQuarter x) : (quarterTurns x).1 = 0 := by
  have hfinite : x.isFinite = true :=
    isFinite_of_between rfl rfl h.1 h.2
  have hunits := unitsAbs_eq hfinite
  -- The double closest to a quarter turn is short of the quarter turn in fixed point.
  obtain ⟨turn, hturn⟩ : ∃ turn, turn = halfPi >>> (widePrecision - turnPrecision) := ⟨_, rfl⟩
  have hshort : unitsAbs x < turn * 2 ^ (1074 - turnPrecision) := by
    have hupper : (extent (Location.toRadians 90.0)).toNat <
        halfPi >>> (widePrecision - turnPrecision) * 2 ^ (1074 - turnPrecision) := by decide +kernel
    have hlower : (-extent (Location.toRadians (-90.0))).toNat <
        halfPi >>> (widePrecision - turnPrecision) * 2 ^ (1074 - turnPrecision) := by decide +kernel
    have hle := (le_iff.1 h.1).2.2
    have hle' := (le_iff.1 h.2).2.2
    rw [hunits, hturn]
    omega
  have hlarge : 2 ^ 53 ≤ turn := by
    rw [hturn]
    decide +kernel
  have hexponent : exponentField x ≤ 1023 := by
    have hcap : halfPi >>> (widePrecision - turnPrecision) * 2 ^ (1074 - turnPrecision) ≤
        2 ^ (52 + 1023) := by decide +kernel
    rw [← hturn] at hcap
    exact exponentField_le (Nat.lt_of_lt_of_le hshort hcap)
  have hbits : turnBits x = turnPrecision := by
    rw [turnBits, Nat.sub_eq_zero_of_le hexponent]
    rfl
  unfold quarterTurns
  dsimp only
  rw [hbits, ← hturn, Nat.div_eq_of_lt]
  rw [Nat.shiftLeft_eq]
  by_cases hcut : turnPrecision + scale x ≤ 1074
  · rw [Nat.sub_eq_zero_of_le hcut, Nat.pow_zero, Nat.mul_one]
    exact Nat.lt_of_lt_of_le (significand_lt x) hlarge
  · have hscale : scale x = turnPrecision + scale x - 1074 + (1074 - turnPrecision) := by
      have : turnPrecision = 192 := rfl
      omega
    rw [unitsAbs, Nat.shiftLeft_eq, hscale, Nat.pow_add, ← Nat.mul_assoc] at hshort
    exact Nat.lt_of_mul_lt_mul_right hshort

/-! ## Functions without a minus sign -/

theorem plus_sin {x : Float} (hplus : Plus x) (h : WithinQuarter x) : Plus (sin x) := by
  unfold sin
  split
  · exact plus_of_isNaN rfl
  · split
    · exact hplus
    · have hsign : (isNegative x != decide (2 ≤ (quarterTurns x).1 % 4)) = false := by
        rw [quarterTurns_of_within h, hplus.isNegative (le_iff.1 h.1).2.1]
        rfl
      dsimp only
      rw [hsign]
      exact plus_nearest _ _

theorem plus_cos {x : Float} (h : WithinQuarter x) : Plus (cos x) := by
  unfold cos
  split
  · exact plus_of_isNaN rfl
  · split
    · exact plus_of_pos (by decide +kernel)
    · have hsign : (decide (1 ≤ (quarterTurns x).1 % 4) && decide ((quarterTurns x).1 % 4 ≤ 2)) =
          false := by
        rw [quarterTurns_of_within h]
        rfl
      dsimp only
      rw [hsign]
      exact plus_nearest _ _

theorem plus_arcsin {x : Float} (h : Plus x) : Plus (arcsin x) := by
  unfold arcsin
  split
  · exact plus_of_isNaN rfl
  next hnumber =>
    rw [Bool.or_eq_true, not_or, Bool.not_eq_true] at hnumber
    split
    · exact h
    · dsimp only
      rw [h.isNegative hnumber.1]
      exact plus_nearest _ _

end Geocast.Trigonometry
