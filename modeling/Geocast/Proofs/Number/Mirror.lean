import Geocast.Number.Trigonometry
import Geocast.Proofs.Number.Alike
import Geocast.Proofs.Number.Least

/-!
# Operands in either order, and turned signs

Sums and products do not depend on the order of their operands. A double and its negation differ in
one bit, which rounding never looks at, so turning the sign of an operand turns the sign of a
product, of a quotient and of a sine; a difference taken the other way round has its sign turned
too, unless it is zero.

* `mul_comm`, `add_comm`: the order of operands.
* `fields_neg`: the fields of a negation.
* `neg_mul`, `neg_div`, `nearest_not`: results with their signs turned.
* `alike_sub_swap`: differences taken the other way round.
* `Trigonometry.sin_neg`: the sine is odd.
-/
namespace Geocast

namespace Binary64
open Float.Model Float.Model.UnpackedFloat

/-! ## The order of operands -/

theorem eq_of_unpack_eq {x y : Float} (h : x.toModel.unpack = y.toModel.unpack) : x = y :=
  Float.toBits_inj.1 (UInt64.toBitVec_inj.1 ((unpack_inj_of_valid x.toModel.valid y.toModel.valid).1 h))

theorem sign_mul_comm (s t : Sign) : s * t = t * s := by
  cases s <;> cases t <;> rfl

theorem mul_parts_comm (u v : UnpackedFloat) :
    UnpackedFloat.mul Format.binary64 u v = UnpackedFloat.mul Format.binary64 v u := by
  cases u <;> cases v <;>
    simp only [UnpackedFloat.mul, sign_mul_comm, Nat.mul_comm, Int.add_comm]

theorem add_parts_comm (u v : UnpackedFloat) :
    UnpackedFloat.add Format.binary64 u v = UnpackedFloat.add Format.binary64 v u := by
  cases u with
  | notANumber => cases v <;> rfl
  | infinity s => cases v with
    | infinity t => cases s <;> cases t <;> rfl
    | notANumber | zero _ | finite _ _ _ _ => rfl
  | zero s => cases v with
    | zero t => cases s <;> cases t <;> rfl
    | notANumber | infinity _ | finite _ _ _ _ => rfl
  | finite s m e hm => cases v with
    | finite t n d hn => simp only [UnpackedFloat.add, Int.add_comm, Int.min_comm]
    | notANumber | infinity _ | zero _ => rfl

protected theorem mul_comm (x y : Float) : x * y = y * x :=
  congrArg (fun u => Float.ofModel (pack u)) (mul_parts_comm _ _)

protected theorem add_comm (x y : Float) : x + y = y + x :=
  congrArg (fun u => Float.ofModel (pack u)) (add_parts_comm _ _)

/-! ## The bits of a negation -/

theorem sign_neg_neg (s : Sign) : - -s = s := by
  cases s <;> rfl

/-- Words whose fields differ in the sign alone stand for numbers that do. -/
theorem unpack_of_turned {w w' : BitVec 64}
    (hexponent : @unpackExponent Format.binary64 w' = @unpackExponent Format.binary64 w)
    (hmantissa : @unpackMantissa Format.binary64 w' = @unpackMantissa Format.binary64 w)
    (hsign : Sign.ofBitVec (@unpackSign Format.binary64 w') =
      -Sign.ofBitVec (@unpackSign Format.binary64 w)) :
    UnpackedFloat.unpack Format.binary64 w' = (UnpackedFloat.unpack Format.binary64 w).neg := by
  unfold UnpackedFloat.unpack
  simp only [hexponent, hmantissa, hsign]
  split
  · split <;> rfl
  · split
    · split <;> rfl
    · rfl

/-- A number is packed into three fields, of which only the first depends on its sign. -/
theorem exists_packComponents {u : UnpackedFloat} (h : u.isNaN = false) :
    ∃ s exponent mantissa,
      UnpackedFloat.pack Format.binary64 u = packComponents Format.binary64 s exponent mantissa ∧
      UnpackedFloat.pack Format.binary64 u.neg =
        packComponents Format.binary64 (-s) exponent mantissa := by
  cases u with
  | notANumber => cases h
  | infinity s => exact ⟨s, _, _, rfl, rfl⟩
  | zero s => exact ⟨s, _, _, rfl, rfl⟩
  | finite s m e hm =>
    simp only [UnpackedFloat.neg, UnpackedFloat.pack]
    split
    · exact ⟨s, _, _, rfl, rfl⟩
    · split <;> exact ⟨s, _, _, rfl, rfl⟩

theorem repack_neg (u : UnpackedFloat) : repack u.neg = (repack u).neg := by
  cases h : u.isNaN with
  | true =>
    cases u with
    | notANumber => rfl
    | infinity s | zero s | finite s m e hm => cases h
  | false =>
    obtain ⟨s, exponent, mantissa, hpack, hturned⟩ := exists_packComponents h
    change UnpackedFloat.unpack Format.binary64 (UnpackedFloat.pack Format.binary64 u.neg) =
      (UnpackedFloat.unpack Format.binary64 (UnpackedFloat.pack Format.binary64 u)).neg
    rw [hpack, hturned]
    apply unpack_of_turned
    · rw [unpackExponent_packComponents, unpackExponent_packComponents]
    · rw [unpackMantissa_packComponents, unpackMantissa_packComponents]
    · rw [unpackSign_packComponents, unpackSign_packComponents, Sign.ofBitVec_toBitVec,
        Sign.ofBitVec_toBitVec]

theorem fields_neg {x : Float} (h : x.isNaN = false) :
    exponentField (-x) = exponentField x ∧ fractionField (-x) = fractionField x ∧
      isNegative (-x) = !isNegative x := by
  obtain ⟨s, exponent, mantissa, hpack, hturned⟩ := exists_packComponents (u := x.toModel.unpack) h
  have hword : word x = packComponents Format.binary64 s exponent mantissa :=
    (pack_unpack_of_valid x.toModel.valid).symm.trans hpack
  have hword' : word (-x) = packComponents Format.binary64 (-s) exponent mantissa := hturned
  refine ⟨?_, ?_, ?_⟩
  · rw [← toNat_unpackExponent, ← toNat_unpackExponent, hword, hword',
      unpackExponent_packComponents, unpackExponent_packComponents]
  · rw [← toNat_unpackMantissa, ← toNat_unpackMantissa, hword, hword',
      unpackMantissa_packComponents, unpackMantissa_packComponents]
  · have hsign := ofBitVec_unpackSign x
    have hsign' := ofBitVec_unpackSign (-x)
    rw [hword, unpackSign_packComponents, Sign.ofBitVec_toBitVec] at hsign
    rw [hword', unpackSign_packComponents, Sign.ofBitVec_toBitVec, hsign] at hsign'
    cases hneg : isNegative x <;> cases hneg' : isNegative (-x) <;> rw [hneg, hneg'] at hsign' <;>
      first | rfl | cases hsign'

/-! ## Results with their signs turned -/

protected theorem neg_neg (x : Float) : - -x = x := by
  apply eq_of_unpack_eq
  rw [unpack_neg, unpack_neg]
  cases x.toModel.unpack <;> simp only [UnpackedFloat.neg, sign_neg_neg]

theorem sign_neg_mul (s t : Sign) : -s * t = -(s * t) := by
  cases s <;> cases t <;> rfl

theorem sign_neg_div (s t : Sign) : -s / t = -(s / t) := by
  cases s <;> cases t <;> rfl

theorem roundWithAccuracy_neg (s : Sign) (m : Nat) (e : Int) (a : Accuracy) :
    roundWithAccuracy Format.binary64 (-s) m e a =
      (roundWithAccuracy Format.binary64 s m e a).neg := by
  unfold roundWithAccuracy
  dsimp only
  split <;> rfl

theorem mul_parts_neg (u v : UnpackedFloat) :
    UnpackedFloat.mul Format.binary64 u.neg v = (UnpackedFloat.mul Format.binary64 u v).neg := by
  cases u <;> cases v <;>
    simp only [UnpackedFloat.neg, UnpackedFloat.mul, sign_neg_mul, roundWithAccuracy_neg]

theorem div_parts_neg (u v : UnpackedFloat) :
    UnpackedFloat.div Format.binary64 u.neg v = (UnpackedFloat.div Format.binary64 u v).neg := by
  cases u <;> cases v <;>
    simp only [UnpackedFloat.neg, UnpackedFloat.div, sign_neg_div, roundWithAccuracy_neg]

protected theorem neg_mul (x y : Float) : -x * y = -(x * y) := by
  apply eq_of_unpack_eq
  rw [unpack_neg, unpack_mul, unpack_mul, unpack_neg, mul_parts_neg, repack_neg]

protected theorem neg_div (x y : Float) : -x / y = -(x / y) := by
  apply eq_of_unpack_eq
  rw [unpack_neg, unpack_div, unpack_div, unpack_neg, div_parts_neg, repack_neg]

/-- A double and its negation have the same square. -/
theorem neg_mul_neg_self (x : Float) : -x * -x = x * x := by
  rw [Binary64.neg_mul, Binary64.mul_comm, Binary64.neg_mul, Binary64.neg_neg]

theorem normalize_neg (n e : Int) :
    UnpackedFloat.normalize Format.binary64 (-n) e .positive =
        (UnpackedFloat.normalize Format.binary64 n e .positive).neg ∨ n = 0 := by
  unfold UnpackedFloat.normalize UnpackedFloat.round
  rcases Int.lt_trichotomy n 0 with hneg | hzero | hpos
  · left
    rw [Int.compare_eq_gt.2 (by omega : (0 : Int) < -n), Int.compare_eq_lt.2 hneg]
    exact roundWithAccuracy_neg .negative _ _ _
  · exact .inr hzero
  · left
    rw [Int.compare_eq_lt.2 (by omega : -n < 0), Int.compare_eq_gt.2 hpos, Int.neg_neg]
    exact roundWithAccuracy_neg .positive _ _ _

/-- The sum of two negations is the negation of the sum, or both are zeros. -/
theorem add_parts_neg (u v : UnpackedFloat) :
    UnpackedFloat.add Format.binary64 u.neg v.neg =
        (UnpackedFloat.add Format.binary64 u v).neg ∨
      (∃ s, UnpackedFloat.add Format.binary64 u.neg v.neg = .zero s) ∧
        ∃ s, UnpackedFloat.add Format.binary64 u v = .zero s := by
  cases u with
  | notANumber => cases v <;> exact .inl rfl
  | infinity s => cases v with
    | infinity t => cases s <;> cases t <;> exact .inl rfl
    | notANumber | zero _ | finite _ _ _ _ => exact .inl rfl
  | zero s => cases v with
    | zero t => cases s <;> cases t <;> first | exact .inl rfl | exact .inr ⟨⟨_, rfl⟩, _, rfl⟩
    | notANumber | infinity _ | finite _ _ _ _ => exact .inl rfl
  | finite s m e hm => cases v with
    | finite t n d hn =>
      simp only [UnpackedFloat.add, UnpackedFloat.neg, neg_apply, ← Int.neg_add]
      refine (normalize_neg _ _).imp_right fun hzero => ?_
      rw [hzero]
      exact ⟨⟨_, rfl⟩, _, rfl⟩
    | notANumber | infinity _ | zero _ => exact .inl rfl

/-- A difference taken the other way round has its sign turned, unless it is zero. -/
theorem alike_sub_swap (x y : Float) : Alike (y - x) (-(x - y)) := by
  have hswap : UnpackedFloat.sub Format.binary64 y.toModel.unpack x.toModel.unpack =
      UnpackedFloat.add Format.binary64 x.toModel.unpack.neg y.toModel.unpack.neg.neg := by
    rw [sub_eq_add_neg, add_parts_comm, ← unpack_neg y, ← unpack_neg (-y), Binary64.neg_neg]
  rcases add_parts_neg x.toModel.unpack y.toModel.unpack.neg with heq | ⟨⟨s, hs⟩, t, ht⟩
  · left
    rw [unpack_neg, unpack_sub, unpack_sub, hswap, heq, repack_neg, sub_eq_add_neg x.toModel.unpack]
  · right
    refine ⟨⟨s, ?_⟩, -t, ?_⟩
    · rw [unpack_sub, hswap, hs, repack_zero]
    · rw [unpack_neg, unpack_sub, sub_eq_add_neg, ht, repack_zero]
      rfl

/-! ## Sines -/

theorem nearest_not (negative : Bool) (m : Nat) (e : Int) :
    nearest (!negative) m e = -nearest negative m e := by
  obtain ⟨magnitude, hlt, hnearest⟩ := exists_nearest_eq m e
  obtain ⟨hmantissa, hexponent, hsign⟩ := fields_ofBits negative hlt
  obtain ⟨hmantissa', hexponent', hsign'⟩ := fields_ofBits (!negative) hlt
  apply eq_of_unpack_eq
  rw [unpack_neg, hnearest, hnearest, unpack_ofBits, unpack_ofBits, ← repack_neg]
  congr 1
  apply unpack_of_turned
  · exact BitVec.eq_of_toNat_eq (hexponent'.trans hexponent.symm)
  · exact BitVec.eq_of_toNat_eq (hmantissa'.trans hmantissa.symm)
  · rw [hsign, hsign']
    cases negative <;> rfl

end Binary64

namespace Trigonometry
open Binary64

theorem quarterTurns_neg {x : Float} (h : x.isNaN = false) : quarterTurns (-x) = quarterTurns x := by
  obtain ⟨hexponent, hfraction, -⟩ := fields_neg h
  simp only [quarterTurns, turnBits, significand, scale, hexponent, hfraction]

theorem abs_neg (x : Float) : (-x).abs = x.abs := by
  apply eq_of_unpack_eq
  rw [unpack_abs, unpack_abs, unpack_neg]
  cases x.toModel.unpack <;> rfl

theorem sin_neg (x : Float) : sin (-x) = -sin x := by
  have hfinite : (-x).isFinite = x.isFinite := by
    change (-x).toModel.unpack.isFinite = x.toModel.unpack.isFinite
    rw [unpack_neg, isFinite_neg]
  cases hx : x.isFinite with
  | false =>
    have hnan : nan = -nan := rfl
    simpa only [sin, hfinite, hx, Bool.not_false, ↓reduceIte] using hnan
  | true =>
    by_cases htiny : x.abs < tiny
    · simp only [sin, hfinite, hx, abs_neg, htiny, Bool.not_true, Bool.false_eq_true, ↓reduceIte]
    · have hnumber := isNaN_of_isFinite hx
      simp only [sin, hfinite, hx, abs_neg, htiny, Bool.not_true, Bool.false_eq_true, ↓reduceIte,
        quarterTurns_neg hnumber, (fields_neg hnumber).2.2, ← nearest_not, Bool.not_bne]

end Trigonometry

end Geocast
