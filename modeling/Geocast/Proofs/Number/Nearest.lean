import Geocast.Proofs.Number.Sum

/-!
# The double closest to a number of units

`ofUnits` cuts a whole number to a significand, rounds it and puts the bits of a double together.
The double stands where rounding puts the number, so a finite double comes back from its units, up
to the sign of a zero.

* `fields_ofBits`: the three fields of bits put together from a sign and a magnitude.
* `extent_ofUnits`: the place of the closest double.
-/
namespace Geocast.Binary64
open Float.Model Float.Model.UnpackedFloat

def signBit (negative : Bool) : UInt64 := if negative then 0x8000000000000000 else 0

/-- The sign that is set or not. -/
def signOfBit (negative : Bool) : Sign := if negative then .negative else .positive

theorem repack_eq {u : UnpackedFloat} (h : Fits u) : repack u = u := by
  cases u with
  | notANumber => exact repack_notANumber
  | infinity s => exact repack_infinity s
  | zero s => exact repack_zero s
  | finite s m e hm => exact repack_of_fits h

theorem toNat_signBit_or (negative : Bool) {magnitude : Nat} (h : magnitude < 2 ^ 63) :
    (signBit negative ||| magnitude.toUInt64).toNat =
      (if negative then 2 ^ 63 else 0) + magnitude := by
  have hmagnitude : magnitude.toUInt64.toNat = magnitude := by
    change magnitude % 2 ^ 64 = magnitude
    omega
  rw [UInt64.toNat_or, hmagnitude]
  cases negative with
  | false => exact (Nat.zero_or magnitude).trans (Nat.zero_add magnitude).symm
  | true => exact (Nat.two_pow_add_eq_or_of_lt h 1).symm

theorem fields_ofBits (negative : Bool) {magnitude : Nat} (h : magnitude < 2 ^ 63) :
    let w := (signBit negative ||| magnitude.toUInt64).toBitVec
    (@unpackMantissa Format.binary64 w).toNat = magnitude % 2 ^ 52 ∧
      (@unpackExponent Format.binary64 w).toNat = magnitude / 2 ^ 52 ∧
      Sign.ofBitVec (@unpackSign Format.binary64 w) = signOfBit negative := by
  have hw := toNat_signBit_or negative h
  dsimp only
  generalize (signBit negative ||| magnitude.toUInt64) = w at hw
  change w.toBitVec.toNat = _ at hw
  refine ⟨?_, ?_, ?_⟩
  · have hfield : (@unpackMantissa Format.binary64 w.toBitVec).toNat =
        w.toBitVec.toNat % 2 ^ 52 := by simp [unpackMantissa]
    rw [hfield, hw]
    split <;> omega
  · have hfield : (@unpackExponent Format.binary64 w.toBitVec).toNat =
        w.toBitVec.toNat / 2 ^ 52 % 2 ^ 11 := by
      simp [unpackExponent, Nat.shiftRight_eq_div_pow]
    rw [hfield, hw]
    split <;> omega
  · have hfield : (@unpackSign Format.binary64 w.toBitVec).toNat =
        w.toBitVec.toNat / 2 ^ 63 % 2 := by
      simp [unpackSign, Nat.shiftRight_eq_div_pow]
    rw [hw] at hfield
    have hclear : @unpackSign Format.binary64 w.toBitVec = 0#1 ↔ negative = false := by
      rw [← BitVec.toNat_inj, hfield]
      cases negative <;> simp <;> omega
    rw [Sign.ofBitVec]
    cases negative with
    | false => exact if_pos (hclear.2 rfl)
    | true => exact if_neg fun h => Bool.noConfusion (hclear.1 h)

theorem unpack_ofBits (w : UInt64) : (Float.ofBits w).toModel.unpack =
    repack (UnpackedFloat.unpack Format.binary64 w.toBitVec) := rfl

/-- The place of a double put together from a sign and a magnitude. -/
theorem extent_ofBits (negative : Bool) {magnitude : Nat} (h : magnitude < 2047 * 2 ^ 52) :
    (Float.ofBits (signBit negative ||| magnitude.toUInt64)).isFinite = true ∧
      extent (Float.ofBits (signBit negative ||| magnitude.toUInt64)) =
        (signOfBit negative).apply
          ((if magnitude / 2 ^ 52 = 0 then magnitude % 2 ^ 52 else 2 ^ 52 + magnitude % 2 ^ 52) *
            2 ^ (magnitude / 2 ^ 52 - 1) : Nat) := by
  have hbits : magnitude < 2 ^ 63 := by omega
  obtain ⟨hmantissa, hexponent, hsign⟩ := fields_ofBits negative hbits
  have hne : magnitude / 2 ^ 52 ≠ 2047 := by omega
  obtain ⟨hfits, hfinite, hreach⟩ := finite_unpack _ (by rw [hexponent]; exact hne)
  have hunpack := unpack_ofBits (signBit negative ||| magnitude.toUInt64)
  rw [repack_eq hfits] at hunpack
  refine ⟨(congrArg UnpackedFloat.isFinite hunpack).trans hfinite, ?_⟩
  rw [extent, hunpack, hreach, hmantissa, hexponent, hsign]

/-- The bits of a rounded significand stand for that significand, a carry included. -/
theorem magnitude_fields {shift cut : Nat} (hle : cut ≤ 2 ^ 53) (hfull : shift = 0 ∨ 2 ^ 52 ≤ cut) :
    (if (shift * 2 ^ 52 + cut) / 2 ^ 52 = 0 then (shift * 2 ^ 52 + cut) % 2 ^ 52
      else 2 ^ 52 + (shift * 2 ^ 52 + cut) % 2 ^ 52) *
        2 ^ ((shift * 2 ^ 52 + cut) / 2 ^ 52 - 1) = cut * 2 ^ shift := by
  rcases Nat.lt_trichotomy cut (2 ^ 53) with hlt | rfl | hgt
  · by_cases hsmall : cut < 2 ^ 52
    · obtain rfl : shift = 0 := hfull.resolve_right (by omega)
      rw [if_pos (by omega)]
      congr 1
      · omega
      · congr 1
        omega
    · rw [if_neg (by omega)]
      congr 1
      · omega
      · congr 1
        omega
  · have hexponent : (shift * 2 ^ 52 + 2 ^ 53) / 2 ^ 52 - 1 = shift + 1 := by omega
    have hfraction : (shift * 2 ^ 52 + 2 ^ 53) % 2 ^ 52 = 0 := by omega
    rw [if_neg (by omega), hexponent, hfraction, Nat.pow_succ 2 shift]
    ring
  · omega

/-- A rounded significand whose bits run past the greatest exponent is past the limit. -/
theorem limit_le_of_overflow {shift cut : Nat} (hle : cut ≤ 2 ^ 53)
    (hfull : shift = 0 ∨ 2 ^ 52 ≤ cut) (hover : 2047 * 2 ^ 52 ≤ shift * 2 ^ 52 + cut) :
    limit ≤ cut * 2 ^ shift := by
  have htop : topScale = 2045 := rfl
  have hbig : 2 ^ 52 ≤ cut := hfull.resolve_left (by omega)
  by_cases hcarry : cut = 2 ^ 53
  · subst hcarry
    exact Nat.mul_le_mul_left _ (Nat.pow_le_pow_right (by decide) (by omega))
  · calc limit = 2 ^ 52 * 2 ^ (topScale + 1) := by rw [limit, Nat.pow_succ _ topScale]; ring
      _ ≤ cut * 2 ^ shift :=
          Nat.mul_le_mul hbig (Nat.pow_le_pow_right (by decide) (by omega))

/-- A number of units is rounded to the closest double. -/
theorem extent_ofUnits (n : Int) :
    (ofUnits n).isNaN = false ∧ extent (ofUnits n) = rounded n := by
  have hrounded : rounded n =
      (signOfBit (n < 0)).apply (Min.min (roundWhole n.natAbs) limit : Nat) := by
    rw [← rounded_apply, signOfBit]
    congr 1
    split
    next h =>
      have : n < 0 := of_decide_eq_true h
      change n = -(n.natAbs : Int)
      omega
    next h =>
      have : ¬ n < 0 := by simpa using h
      change n = (n.natAbs : Int)
      omega
  rw [hrounded]
  unfold ofUnits nearest
  generalize decide (n < 0) = negative
  generalize n.natAbs = m
  dsimp only
  by_cases hzero : m = 0
  · subst hzero
    rw [if_pos rfl, roundWhole_zero, Nat.zero_min]
    cases negative <;> exact ⟨rfl, rfl⟩
  · have hm : 0 < m := Nat.pos_of_ne_zero hzero
    have htarget : Max.max ((m.log2 : Int) + -1074 - 52) (-1074) = target m (-1074) := rfl
    have hleast : -1074 ≤ target m (-1074) := Int.le_max_right _ _
    obtain ⟨shift, hshift⟩ : ∃ shift, shift = (target m (-1074) + 1074).toNat := ⟨_, rfl⟩
    have hshift' : (target m (-1074) - -1074).toNat = shift := by rw [hshift]; congr 1
    have hlog : shift = 0 ∨ m.log2 = 52 + shift := by
      rw [hshift, target]
      omega
    have hbits : m.log2 ≤ 52 + shift := by
      rw [hshift, target]
      omega
    have hle := roundDiv_le hbits
    have hfull : shift = 0 ∨ 2 ^ 52 ≤ roundDiv m (2 ^ shift) .even := by
      refine hlog.imp_right fun hlog => ?_
      refine Nat.le_trans ?_ (roundDiv_bounds m _).1
      rw [Nat.le_div_iff_mul_le (Nat.two_pow_pos _), ← Nat.pow_add, ← hlog]
      exact Nat.log2_self_le hzero
    have hwhole : roundWhole m = roundDiv m (2 ^ shift) .even * 2 ^ shift := by
      have h := roundWhole_magnitude hm (Int.le_refl (-1074)) hleast
      rw [hshift', ← hshift] at h
      rwa [magnitude, Int.add_left_neg, Int.toNat_zero, Nat.pow_zero, Nat.mul_one] at h
    have hnonneg : 0 ≤ target m (-1074) - -1074 := by omega
    rw [if_neg hzero, htarget, if_pos hnonneg, hshift', ← hshift, Nat.shiftLeft_eq,
      Nat.shiftLeft_eq, Nat.one_mul, hwhole]
    generalize roundDiv m (2 ^ shift) .even = cut at hle hfull
    split
    next hfits =>
      obtain ⟨hfinite, hextent⟩ := extent_ofBits negative hfits
      rw [magnitude_fields hle hfull] at hextent
      have hnear := (isFinite_iff.1 hfinite).2
      rw [hextent, natAbs_apply] at hnear
      rw [Nat.min_eq_left hnear.le]
      exact ⟨isNaN_of_isFinite hfinite, hextent⟩
    next hover =>
      rw [Nat.min_eq_right (limit_le_of_overflow hle hfull (Nat.not_lt.1 hover))]
      cases negative <;> exact ⟨rfl, rfl⟩

end Geocast.Binary64
