import Geocast.Proofs.Number.Sign

/-!
# Doubles that differ in the sign of a zero

Adding a zero to a finite double leaves it as it is, but for the sign of a zero; doubles that are
equal as numbers differ in no more than that. Such doubles stay such under arithmetic, and their
squares are the same.

* `Alike`: doubles that are the same but for the sign of a zero.
* `alike_add_zero`, `alike_of_beq`: where such doubles come from.
* `isZero_zero_div`: zero divided by a positive whole number is zero, however large that number is.
-/
namespace Geocast.Binary64
open Float.Model Float.Model.UnpackedFloat

/-! ## Doubles that differ in the sign of a zero -/

/-- Two doubles are the same but for the sign of a zero. -/
def Alike (x y : Float) : Prop := x.toModel.unpack = y.toModel.unpack ∨ IsZero x ∧ IsZero y

theorem sub_congr {x y : Float} (h : x.toModel.unpack = y.toModel.unpack) (d : Float) :
    x - d = y - d :=
  congrArg (fun u => Float.ofModel (pack (UnpackedFloat.sub Format.binary64 u d.toModel.unpack))) h

theorem mul_congr {x y : Float} (h : x.toModel.unpack = y.toModel.unpack) (d : Float) :
    x * d = y * d :=
  congrArg (fun u => Float.ofModel (pack (UnpackedFloat.mul Format.binary64 u d.toModel.unpack))) h

theorem div_congr {x y : Float} (h : x.toModel.unpack = y.toModel.unpack) (d : Float) :
    x / d = y / d :=
  congrArg (fun u => Float.ofModel (pack (UnpackedFloat.div Format.binary64 u d.toModel.unpack))) h

theorem IsZero.mul_self_eq {x y : Float} (hx : IsZero x) (hy : IsZero y) : x * x = y * y := by
  have hsquare : ∀ {z : Float}, IsZero z → z * z = Float.ofModel (pack (.zero .positive)) := by
    rintro z ⟨s, hs⟩
    refine (congrArg (fun u => Float.ofModel (pack (UnpackedFloat.mul Format.binary64 u u))) hs).trans
      ?_
    cases s <;> rfl
  rw [hsquare hx, hsquare hy]

theorem Alike.sub {x y : Float} (h : Alike x y) (d : Float) : Alike (x - d) (y - d) := by
  rcases h with heq | ⟨⟨s, hs⟩, ⟨t, ht⟩⟩
  · exact .inl (congrArg (·.toModel.unpack) (sub_congr heq d))
  · simp only [Alike, IsZero, unpack_sub, hs, ht]
    cases d.toModel.unpack with
    | notANumber => exact .inl rfl
    | infinity r => exact .inl rfl
    | zero r =>
      cases s <;> cases t <;> cases r <;> exact .inr ⟨⟨_, repack_zero _⟩, _, repack_zero _⟩
    | finite r m e hm => exact .inl rfl

theorem Alike.mul {x y : Float} (h : Alike x y) (d : Float) : Alike (x * d) (y * d) := by
  rcases h with heq | ⟨⟨s, hs⟩, ⟨t, ht⟩⟩
  · exact .inl (congrArg (·.toModel.unpack) (mul_congr heq d))
  · simp only [Alike, IsZero, unpack_mul, hs, ht]
    cases d.toModel.unpack with
    | notANumber => exact .inl rfl
    | infinity r => exact .inl rfl
    | zero r => exact .inr ⟨⟨_, repack_zero _⟩, _, repack_zero _⟩
    | finite r m e hm => exact .inr ⟨⟨_, repack_zero _⟩, _, repack_zero _⟩

theorem Alike.div {x y : Float} (h : Alike x y) (d : Float) : Alike (x / d) (y / d) := by
  rcases h with heq | ⟨⟨s, hs⟩, ⟨t, ht⟩⟩
  · exact .inl (congrArg (·.toModel.unpack) (div_congr heq d))
  · simp only [Alike, IsZero, unpack_div, hs, ht]
    cases d.toModel.unpack with
    | notANumber => exact .inl rfl
    | infinity r => exact .inr ⟨⟨_, repack_zero _⟩, _, repack_zero _⟩
    | zero r => exact .inl rfl
    | finite r m e hm => exact .inr ⟨⟨_, repack_zero _⟩, _, repack_zero _⟩

theorem alike_add_zero {x z : Float} (hx : x.isFinite = true) (hz : IsZero z) :
    Alike (x + z) x := by
  obtain ⟨t, ht⟩ := hz
  rcases parts_of_isFinite hx with hzero | ⟨s, m, e, hm, hs⟩
  · exact .inr ⟨IsZero.add hzero ⟨t, ht⟩, hzero⟩
  · have hfits := fits_unpack x
    left
    rw [unpack_add, ht]
    rw [hs] at hfits ⊢
    exact repack_of_fits hfits

/-- The parts of a finite double are told by its place on the line, up to the sign of a zero. -/
theorem eq_of_reach_eq {s t : Sign} {m n : Nat} {d e : Int} {hm : 0 < m} {hn : 0 < n}
    (hfm : IsCanonical m d) (hfn : IsCanonical n e)
    (h : reach (.finite s m d hm) = reach (.finite t n e hn)) :
    UnpackedFloat.finite s m d hm = .finite t n e hn := by
  have hpos : 0 < magnitude m d := magnitude_pos hm
  have hpos' : 0 < magnitude n e := magnitude_pos hn
  have hmagnitude : magnitude m d = magnitude n e := by
    have := congrArg Int.natAbs h
    rwa [reach, reach, natAbs_apply, natAbs_apply] at this
  have hcompare := compare_magnitude hfm hfn
  rw [hmagnitude, Std.compare_self, Ordering.then_eq_eq, Int.compare_eq_eq, Nat.compare_eq_eq]
    at hcompare
  obtain ⟨rfl, rfl⟩ := hcompare
  cases s <;> cases t <;> simp only [reach, Sign.apply] at h
  · rfl
  · omega
  · omega
  · rfl

/-- Finite doubles that are equal as numbers differ in the sign of a zero at most. -/
theorem alike_of_beq {x y : Float} (hx : x.isFinite = true) (hy : y.isFinite = true)
    (h : (x == y) = true) : Alike x y := by
  have hextent := (beq_iff.1 h).2.2
  have hfx := fits_unpack x
  have hfy := fits_unpack y
  have hnonzero : ∀ {s : Sign} {m : Nat} {e : Int} (hm : 0 < m),
      reach (.finite s m e hm) ≠ 0 := by
    intro s m e hm
    have hpos : 0 < magnitude m e := magnitude_pos hm
    cases s <;> simp only [reach, Sign.apply] <;> omega
  rw [extent, extent] at hextent
  rcases parts_of_isFinite hx with ⟨s, hs⟩ | ⟨s, m, e, hm, hs⟩ <;>
    rcases parts_of_isFinite hy with ⟨t, ht⟩ | ⟨t, n, d, hn, ht⟩ <;> rw [hs, ht] at hextent
  · exact .inr ⟨⟨s, hs⟩, t, ht⟩
  · exact absurd hextent.symm (hnonzero hn)
  · exact absurd hextent (hnonzero hm)
  · rw [hs] at hfx
    rw [ht] at hfy
    exact .inl (by rw [hs, ht, eq_of_reach_eq hfx hfy hextent])

/-! ## Quotients of whole numbers -/

/-- A whole number that fits into sixty-four bits is put in its own place and rounded. -/
theorem extent_toFloat {n : Nat} (h : n < 2 ^ 64) :
    extent n.toUInt64.toFloat = rounded (n * 2 ^ 1074) := by
  have hn : n.toUInt64.toNat = n := by
    rw [Nat.toUInt64, UInt64.toNat_ofNat']
    exact Nat.mod_eq_of_lt h
  change reach (repack (UnpackedFloat.normalize Format.binary64 n.toUInt64.toNat 0 .positive)) = _
  rw [hn, reach_repack_normalize (by decide)]
  rfl

theorem extent_one : extent 1.0 = 2 ^ 1074 := by decide +kernel

theorem extent_one_le_rounded {n : Nat} (h : 0 < n) : extent 1.0 ≤ rounded (n * 2 ^ 1074) := by
  calc extent 1.0 = rounded (extent 1.0) := (rounded_extent rfl).symm
    _ ≤ rounded (n * 2 ^ 1074) := by
        refine rounded_mono ?_
        rw [extent_one]
        exact le_mul_of_one_le_left (by positivity) (by exact_mod_cast h)

/-- A whole number with more bits than a double has is rounded once. -/
theorem reach_ofScientific {n : Nat} (h : 0 < n) :
    reach (repack (UnpackedFloat.ofScientific Format.binary64 n 0)) = rounded (n * 2 ^ 1074) := by
  have hbits : Format.binary64.mantissaBits = 53 := rfl
  have hlog : (n * 2 ^ 53).log2 = n.log2 + 53 := log2_mul_two_pow h.ne' 53
  have hexponent : ((-(53 : Nat) : Int) + 0) ≤ target (n * 2 ^ 53) (-(53 : Nat) + 0) := by
    rw [target, hlog]
    omega
  have hmagnitude : magnitude (n * 2 ^ 53) (-(53 : Nat) + 0) = n * 2 ^ 1074 := by
    have hone : magnitude (2 ^ 53) (-(53 : Nat) + 0) = 2 ^ 1074 := by
      rw [magnitude, ← Nat.pow_add]
      congr 1
    rw [← hone, magnitude, magnitude, Nat.mul_assoc]
  have hle : ¬ (0 : Int) < -((2 ^ Format.binary64.exponentBits + n.log2 : Nat) : Int) := by
    have := Int.natCast_nonneg (2 ^ Format.binary64.exponentBits + n.log2)
    omega
  rw [UnpackedFloat.ofScientific, dif_neg h.ne', if_neg (by decide), if_neg (by exact_mod_cast hle),
    if_pos (Int.le_refl 0), UnpackedFloat.mul]
  simp only [hbits, Nat.shiftLeft_eq, Int.toNat_zero, Nat.pow_zero, Nat.mul_one]
  rw [reach_repack_round _ hexponent,
    ← roundWhole_magnitude (Nat.mul_pos h (Nat.two_pow_pos _)) (by decide) hexponent, hmagnitude,
    ← rounded_apply]
  change rounded ((n * 2 ^ 1074 : Nat) : Int) = _
  rw [Nat.cast_mul, Nat.cast_pow, Nat.cast_ofNat]

/-- A positive whole number is a positive double, however large it is. -/
theorem extent_ofNat_pos {n : Nat} (h : 0 < n) : 0 < extent (Float.ofNat n) := by
  have hunit : 0 < extent 1.0 := by
    rw [extent_one]
    positivity
  have hbound := extent_one_le_rounded h
  change 0 < extent (Float.ofScientific n false 0)
  rw [Float.ofScientific]
  split
  next hsmall =>
    have hone : (Float.ofBits 0x3FF0000000000000).toModel.unpack =
        .finite .positive (2 ^ 52) (-52) (by decide) := by rfl
    have hplace := extent_toFloat (n := n) (by omega)
    have hle : 1.0 ≤ n.toUInt64.toFloat :=
      le_iff.2 ⟨rfl, isNaN_normalize _ _, by rwa [hplace]⟩
    have hpos : 0 < extent (1.0 * Float.ofBits 0x3FF0000000000000) := by decide +kernel
    exact hpos.trans_le (le_iff.1 (mul_le_mul_of_le hone hle)).2.2
  next hlarge =>
    change 0 < reach (repack (UnpackedFloat.ofScientific Format.binary64 n 0))
    rw [reach_ofScientific h]
    omega

theorem isZero_zero_div {n : Nat} (h : 0 < n) : IsZero (Float.ofNat 0 / Float.ofNat n) := by
  have hpos := extent_ofNat_pos h
  have hsign := signOf_unpack_ofNat n
  have hzero : (Float.ofNat 0).toModel.unpack = .zero .positive := rfl
  rw [extent] at hpos
  simp only [IsZero, unpack_div, hzero]
  cases hn : (Float.ofNat n).toModel.unpack with
  | notANumber => rw [hn] at hsign; cases hsign
  | infinity s => exact ⟨_, repack_zero _⟩
  | zero s => rw [hn] at hpos; exact absurd hpos (Int.lt_irrefl 0)
  | finite s m e hm => exact ⟨_, repack_zero _⟩

end Geocast.Binary64
