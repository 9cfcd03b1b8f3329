import Geocast.Number.Binary64
import Mathlib

/-!
# The order of doubles

A double is taken apart into a sign, a significand and an exponent, and it compares as those do.
Here the comparison is carried to the line: a finite double has its place at `units`, an infinity
is put further out than every finite double, and NaN is compared with nothing.

* `IsCanonical`: significands and exponents as they stand for finite doubles.
* `finite_unpack`: the parts of a finite double, from the three fields of its bits.
* `extent_eq_units`: a finite double has its place at its units.
* `compare_reach`: numbers compare as their places do.
* `le_iff`, `lt_iff`, `beq_iff`: doubles are compared on the line, if both are numbers.
* `max_spec`, `min_spec`: the larger and the smaller of two numbers.
-/
namespace Geocast.Binary64
open Float.Model Float.Model.UnpackedFloat

/-! ## The parts of a double -/

def word (x : Float) : BitVec 64 := x.toModel.toBits.toBitVec

theorem toNat_unpackMantissa (x : Float) :
    (@unpackMantissa Format.binary64 (word x)).toNat = fractionField x := by
  have h : (@unpackMantissa Format.binary64 (word x)).toNat = (word x).toNat % 2 ^ 52 := by
    simp [unpackMantissa]
  rw [h, fractionField, UInt64.toNat_and]
  exact (Nat.and_two_pow_sub_one_eq_mod _ 52).symm

theorem toNat_unpackExponent (x : Float) :
    (@unpackExponent Format.binary64 (word x)).toNat = exponentField x := by
  have h : (@unpackExponent Format.binary64 (word x)).toNat =
      (word x).toNat / 2 ^ 52 % 2 ^ 11 := by
    simp [unpackExponent, Nat.shiftRight_eq_div_pow]
  rw [h, exponentField, UInt64.toNat_and, UInt64.toNat_shiftRight, Nat.shiftRight_eq_div_pow]
  exact (Nat.and_two_pow_sub_one_eq_mod _ 11).symm

theorem ofBitVec_unpackSign (x : Float) :
    Sign.ofBitVec (@unpackSign Format.binary64 (word x)) =
      if isNegative x then .negative else .positive := by
  have h : (@unpackSign Format.binary64 (word x)).toNat = (word x).toNat / 2 ^ 63 := by
    have := (word x).isLt
    simp [unpackSign, Nat.shiftRight_eq_div_pow]
    omega
  have h1 : (x.toBits >>> 63).toNat = (word x).toNat / 2 ^ 63 := by
    rw [UInt64.toNat_shiftRight, Nat.shiftRight_eq_div_pow]
    rfl
  have hneg : isNegative x = true ↔ ¬ @unpackSign Format.binary64 (word x) = 0#1 := by
    rw [isNegative, beq_iff_eq, ← UInt64.toNat_inj, h1, ← BitVec.toNat_inj, h]
    have := (word x).isLt
    simp
    omega
  rw [Sign.ofBitVec]
  by_cases hs : @unpackSign Format.binary64 (word x) = 0#1
  · rw [if_pos hs, if_neg (by rw [hneg]; exact not_not_intro hs)]
  · rw [if_neg hs, if_pos (hneg.2 hs)]

/-- A significand and an exponent as they stand for a finite double other than zero: all fifty-three
bits are used unless the exponent is the least one. -/
structure IsCanonical (m : Nat) (e : Int) : Prop where
  lt : m < 2 ^ 53
  le : -1074 ≤ e
  ge : e ≤ 971
  full : e = -1074 ∨ 2 ^ 52 ≤ m

/-! ## Order -/

/-- The magnitude of a finite double in units. -/
def magnitude (m : Nat) (e : Int) : Nat := m * 2 ^ (e + 1074).toNat

/-- The scale of the largest doubles. -/
def topScale : Nat := 2045

/-- More units than any finite double has; infinities are taken to be that far out. -/
def limit : Nat := 2 ^ 53 * 2 ^ topScale

theorem limit_pos : 0 < limit := Nat.mul_pos (by decide) (Nat.two_pow_pos _)

theorem magnitude_pos {m : Nat} {e : Int} (h : 0 < m) : 0 < magnitude m e :=
  Nat.mul_pos h (Nat.two_pow_pos _)

theorem magnitude_lt_limit {m : Nat} {e : Int} (h : IsCanonical m e) : magnitude m e < limit := by
  have he := h.le
  have he' := h.ge
  have htop : topScale = 2045 := rfl
  exact Nat.mul_lt_mul_of_lt_of_le h.lt (Nat.pow_le_pow_right (by decide) (by omega))
    (Nat.two_pow_pos _)

/-- A larger exponent means a larger double, whatever the significands are. -/
theorem magnitude_lt_of_lt {m n : Nat} {d e : Int} (hm : IsCanonical m d) (hn : IsCanonical n e)
    (h : d < e) : magnitude m d < magnitude n e := by
  have hd := hm.le
  have hfull : 2 ^ 52 ≤ n := hn.full.resolve_left (by omega)
  calc m * 2 ^ (d + 1074).toNat < 2 ^ 53 * 2 ^ (d + 1074).toNat :=
        Nat.mul_lt_mul_of_pos_right hm.lt (Nat.two_pow_pos _)
    _ = 2 ^ 52 * 2 ^ ((d + 1074).toNat + 1) := by rw [← Nat.pow_add, ← Nat.pow_add]; congr 1; omega
    _ ≤ n * 2 ^ (e + 1074).toNat :=
        Nat.mul_le_mul hfull (Nat.pow_le_pow_right (by decide) (by omega))

/-- Magnitudes compare as their exponents do, then as their significands do. -/
theorem compare_magnitude {m n : Nat} {d e : Int} (hm : IsCanonical m d) (hn : IsCanonical n e) :
    (compare d e).then (compare m n) = compare (magnitude m d) (magnitude n e) := by
  rcases Int.lt_trichotomy d e with h | rfl | h
  · rw [Int.compare_eq_lt.2 h, Nat.compare_eq_lt.2 (magnitude_lt_of_lt hm hn h)]
    rfl
  · rw [Std.compare_self]
    have hpos := Nat.two_pow_pos (d + 1074).toNat
    simp only [Nat.compare_eq_ite_lt, magnitude, Nat.mul_lt_mul_right hpos, Ordering.then]
  · rw [Int.compare_eq_gt.2 h, Nat.compare_eq_gt.2 (magnitude_lt_of_lt hn hm h)]
    rfl

/-- The place of a double on the line, in units. -/
def reach : UnpackedFloat → Int
  | .notANumber => 0
  | .infinity s => s.apply limit
  | .zero _ => 0
  | .finite s m e _ => s.apply (magnitude m e)

/-- The parts of a double are in canonical form. -/
def Fits : UnpackedFloat → Prop
  | .finite _ m e _ => IsCanonical m e
  | _ => True

/-- What the bits of a finite double stand for: all exponents but the greatest are those of finite
doubles, and the least one leaves out the leading bit. -/
theorem finite_unpack (w : BitVec 64)
    (h : (@unpackExponent Format.binary64 w).toNat ≠ 2047) :
    let u := UnpackedFloat.unpack Format.binary64 w
    let fraction := (@unpackMantissa Format.binary64 w).toNat
    let biased := (@unpackExponent Format.binary64 w).toNat
    Fits u ∧ u.isFinite = true ∧
      reach u = (Sign.ofBitVec (@unpackSign Format.binary64 w)).apply
        ((if biased = 0 then fraction else 2 ^ 52 + fraction) * 2 ^ (biased - 1) : Nat) := by
  have hfraction : (@unpackMantissa Format.binary64 w).toNat < 2 ^ 52 := BitVec.isLt _
  have hbiased : (@unpackExponent Format.binary64 w).toNat < 2 ^ 11 := BitVec.isLt _
  dsimp only
  unfold UnpackedFloat.unpack
  dsimp only
  generalize Sign.ofBitVec (@unpackSign Format.binary64 w) = s
  split
  next hmax => exact absurd (congrArg BitVec.toNat hmax) h
  next hmax =>
  split
  next h0 =>
    have hzero : (@unpackExponent Format.binary64 w).toNat = 0 := by rw [h0]; rfl
    rw [if_pos hzero, hzero]
    split
    next hf =>
      have hnone : (@unpackMantissa Format.binary64 w).toNat = 0 := by rw [hf]; rfl
      rw [hnone]
      refine ⟨trivial, rfl, ?_⟩
      cases s <;> rfl
    next hf =>
      exact ⟨⟨by omega, by decide, by decide, .inl (by decide)⟩, rfl, rfl⟩
  next h0 =>
    have hne : (@unpackExponent Format.binary64 w).toNat ≠ 0 := fun hzero =>
      h0 (BitVec.eq_of_toNat_eq hzero)
    have hsig : (1#1 ++ @unpackMantissa Format.binary64 w).toNat =
        2 ^ 52 + (@unpackMantissa Format.binary64 w).toNat := by
      rw [BitVec.toNat_append, ← Nat.shiftLeft_add_eq_or_of_lt hfraction]
      rfl
    rw [if_neg hne]
    generalize (@unpackExponent Format.binary64 w).toNat = biased at h hbiased hne
    change IsCanonical _ ((biased : Int) - 1075) ∧ true = true ∧
      Sign.apply s (magnitude _ ((biased : Int) - 1075)) = _
    rw [hsig, magnitude, show ((biased : Int) - 1075 + 1074).toNat = biased - 1 by omega]
    exact ⟨⟨by omega, by omega, by omega, .inr (by omega)⟩, rfl, rfl⟩

theorem not_finite_unpack {w : BitVec 64}
    (h : (@unpackExponent Format.binary64 w).toNat = 2047) :
    Fits (UnpackedFloat.unpack Format.binary64 w) ∧
      (UnpackedFloat.unpack Format.binary64 w).isFinite = false := by
  have hmax : @unpackExponent Format.binary64 w = -1#11 := BitVec.eq_of_toNat_eq h
  unfold UnpackedFloat.unpack
  dsimp only
  rw [if_pos hmax]
  split <;> exact ⟨trivial, rfl⟩

theorem natAbs_apply (s : Sign) (n : Nat) : (s.apply (n : Int)).natAbs = n := by
  cases s with
  | negative => rw [Sign.apply, Int.natAbs_neg, Int.natAbs_natCast]
  | positive => exact Int.natAbs_natCast n

theorem compare_cast (m n : Nat) : compare (m : Int) n = compare m n := by
  simp only [Int.compare_eq_ite_lt, Nat.compare_eq_ite_lt, Int.ofNat_lt]

theorem compare_neg_cast (m n : Nat) : compare (-m : Int) (-n) = (compare m n).swap := by
  rcases Nat.lt_trichotomy m n with h | rfl | h
  · rw [Nat.compare_eq_lt.2 h, Int.compare_eq_gt.2 (by omega)]
    rfl
  · rw [Std.compare_self, Std.compare_self]
    rfl
  · rw [Nat.compare_eq_gt.2 h, Int.compare_eq_lt.2 (by omega)]
    rfl

theorem some_lt {a b : Int} (h : a < b) : some Ordering.lt = some (compare a b) :=
  congrArg some (Int.compare_eq_lt.2 h).symm

theorem some_gt {a b : Int} (h : b < a) : some Ordering.gt = some (compare a b) :=
  congrArg some (Int.compare_eq_gt.2 h).symm

/-- Numbers compare as their places on the line do. -/
theorem compare_reach {u v : UnpackedFloat} (hu : Fits u) (hv : Fits v) (hnu : u.isNaN = false)
    (hnv : v.isNaN = false) : u.compare v = some (compare (reach u) (reach v)) := by
  have hlim := limit_pos
  cases u with
  | notANumber => cases hnu
  | infinity s =>
    cases v with
    | notANumber => cases hnv
    | infinity t =>
      cases s <;> cases t <;> simp only [UnpackedFloat.compare, reach, Sign.apply]
      · exact congrArg some Std.compare_self.symm
      · exact some_lt (by omega)
      · exact some_gt (by omega)
      · exact congrArg some Std.compare_self.symm
    | zero t =>
      cases s
      · exact some_lt (by simp only [reach, Sign.apply]; omega)
      · exact some_gt (by simp only [reach, Sign.apply]; omega)
    | finite t n e hn =>
      have hnl := magnitude_lt_limit hv
      cases s <;> cases t
      all_goals first
        | exact some_lt (by simp only [reach, Sign.apply]; omega)
        | exact some_gt (by simp only [reach, Sign.apply]; omega)
  | zero s =>
    cases v with
    | notANumber => cases hnv
    | infinity t =>
      cases t
      · exact some_gt (by simp only [reach, Sign.apply]; omega)
      · exact some_lt (by simp only [reach, Sign.apply]; omega)
    | zero t => rfl
    | finite t n e hn =>
      have hnp := magnitude_pos (e := e) hn
      cases t
      · exact some_gt (by simp only [reach, Sign.apply]; omega)
      · exact some_lt (by simp only [reach, Sign.apply]; omega)
  | finite s m d hm =>
    have hmp := magnitude_pos (e := d) hm
    have hml := magnitude_lt_limit hu
    cases v with
    | notANumber => cases hnv
    | infinity t =>
      cases s <;> cases t
      all_goals first
        | exact some_lt (by simp only [reach, Sign.apply]; omega)
        | exact some_gt (by simp only [reach, Sign.apply]; omega)
    | zero t =>
      cases s
      · exact some_lt (by simp only [reach, Sign.apply]; omega)
      · exact some_gt (by simp only [reach, Sign.apply]; omega)
    | finite t n e hn =>
      have hnp := magnitude_pos (e := e) hn
      have hcmp := compare_magnitude hu hv
      cases s <;> cases t <;> simp only [UnpackedFloat.compare, reach, Sign.apply]
      · rw [hcmp, compare_neg_cast]
      · exact some_lt (by omega)
      · exact some_gt (by omega)
      · rw [hcmp, compare_cast]

/-! ## Doubles on the line -/

/-- The place of a double on the line in units; NaN has none and is put at zero. -/
def extent (x : Float) : Int := reach x.toModel.unpack

theorem fits_unpack (x : Float) : Fits x.toModel.unpack := by
  change Fits (UnpackedFloat.unpack Format.binary64 (word x))
  by_cases h : (@unpackExponent Format.binary64 (word x)).toNat = 2047
  · exact (not_finite_unpack h).1
  · exact (finite_unpack (word x) h).1

theorem isFinite_iff_exponentField {x : Float} :
    x.isFinite = true ↔ exponentField x ≠ 2047 := by
  rw [← toNat_unpackExponent]
  change (UnpackedFloat.unpack Format.binary64 (word x)).isFinite = true ↔ _
  by_cases h : (@unpackExponent Format.binary64 (word x)).toNat = 2047
  · rw [(not_finite_unpack h).2]
    exact iff_of_false Bool.false_ne_true (not_not_intro h)
  · exact iff_of_true (finite_unpack (word x) h).2.1 h

theorem extent_eq_units {x : Float} (h : x.isFinite = true) : extent x = units x := by
  have hexponent : (@unpackExponent Format.binary64 (word x)).toNat ≠ 2047 := by
    rw [toNat_unpackExponent]
    exact isFinite_iff_exponentField.1 h
  have hreach := (finite_unpack (word x) hexponent).2.2
  rw [toNat_unpackExponent, toNat_unpackMantissa, ofBitVec_unpackSign] at hreach
  rw [units, unitsAbs, Nat.shiftLeft_eq]
  change reach (UnpackedFloat.unpack Format.binary64 (word x)) = _
  rw [hreach]
  cases isNegative x <;> rfl

theorem compare_eq_none_iff (u v : UnpackedFloat) :
    u.compare v = none ↔ u.isNaN = true ∨ v.isNaN = true := by
  fun_cases UnpackedFloat.compare u v <;> simp_all [UnpackedFloat.isNaN]

/-- A double is at most another when both are numbers and it is not further out on the line. -/
theorem le_iff {x y : Float} :
    x ≤ y ↔ x.isNaN = false ∧ y.isNaN = false ∧ extent x ≤ extent y := by
  have hdef : x ≤ y ↔ (x.toModel.unpack.compare y.toModel.unpack).any (·.isLE) = true :=
    decide_eq_true_iff
  rw [hdef]
  by_cases hnan : x.isNaN = true ∨ y.isNaN = true
  · rw [(compare_eq_none_iff _ _).2 hnan]
    refine ⟨fun h => (Bool.false_ne_true h).elim, fun ⟨hx, hy, _⟩ => ?_⟩
    rcases hnan with h | h
    · rw [h] at hx
      cases hx
    · rw [h] at hy
      cases hy
  · rw [not_or, Bool.not_eq_true, Bool.not_eq_true] at hnan
    rw [compare_reach (fits_unpack x) (fits_unpack y) hnan.1 hnan.2, Option.any_some,
      Int.isLE_compare]
    exact ⟨fun h => ⟨hnan.1, hnan.2, h⟩, fun h => h.2.2⟩

theorem compare_eq_some_iff {x y : Float} {o : Ordering} :
    x.toModel.unpack.compare y.toModel.unpack = some o ↔
      x.isNaN = false ∧ y.isNaN = false ∧ compare (extent x) (extent y) = o := by
  by_cases hnan : x.isNaN = true ∨ y.isNaN = true
  · rw [(compare_eq_none_iff _ _).2 hnan]
    refine iff_of_false nofun fun ⟨hx, hy, _⟩ => ?_
    rw [hx, hy] at hnan
    simp at hnan
  · rw [not_or, Bool.not_eq_true, Bool.not_eq_true] at hnan
    rw [compare_reach (fits_unpack x) (fits_unpack y) hnan.1 hnan.2, Option.some.injEq]
    exact ⟨fun h => ⟨hnan.1, hnan.2, h⟩, fun h => h.2.2⟩

theorem lt_iff {x y : Float} :
    x < y ↔ x.isNaN = false ∧ y.isNaN = false ∧ extent x < extent y := by
  have hdef : x < y ↔ (x.toModel.unpack.compare y.toModel.unpack == some .lt) = true :=
    decide_eq_true_iff
  rw [hdef, beq_iff_eq, compare_eq_some_iff, Int.compare_eq_lt]

theorem beq_iff {x y : Float} :
    (x == y) = true ↔ x.isNaN = false ∧ y.isNaN = false ∧ extent x = extent y := by
  have hdef : (x == y) = true ↔
      (x.toModel.unpack.compare y.toModel.unpack == some .eq) = true := Iff.rfl
  rw [hdef, beq_iff_eq, compare_eq_some_iff, Int.compare_eq_eq]

/-- A double is finite when it is a number and nearer than the infinities. -/
theorem isFinite_iff {x : Float} :
    x.isFinite = true ↔ x.isNaN = false ∧ (extent x).natAbs < limit := by
  have hlim := limit_pos
  have hfits := fits_unpack x
  change x.toModel.unpack.isFinite = true ↔ x.toModel.unpack.isNaN = false ∧
    (reach x.toModel.unpack).natAbs < limit
  cases hu : x.toModel.unpack with
  | notANumber => exact iff_of_false Bool.false_ne_true fun h => Bool.noConfusion h.1
  | infinity s =>
    refine iff_of_false Bool.false_ne_true fun h => ?_
    have hlt : (s.apply limit).natAbs < limit := h.2
    rw [natAbs_apply] at hlt
    exact Nat.lt_irrefl _ hlt
  | zero s => exact iff_of_true rfl ⟨rfl, hlim⟩
  | finite s m e hm =>
    rw [hu] at hfits
    refine iff_of_true rfl ⟨rfl, ?_⟩
    rw [reach, natAbs_apply]
    exact magnitude_lt_limit hfits

theorem isNaN_of_isFinite {x : Float} (h : x.isFinite = true) : x.isNaN = false :=
  (isFinite_iff.1 h).1

theorem beq_self {x : Float} (h : x.isFinite = true) : (x == x) = true :=
  beq_iff.2 ⟨isNaN_of_isFinite h, isNaN_of_isFinite h, rfl⟩

theorem le_self {x : Float} (h : x.isNaN = false) : x ≤ x := le_iff.2 ⟨h, h, Int.le_refl _⟩

theorem le_trans {x y z : Float} (h : x ≤ y) (h' : y ≤ z) : x ≤ z := by
  rw [le_iff] at h h' ⊢
  exact ⟨h.1, h'.2.1, h.2.2.trans h'.2.2⟩

theorem le_of_not_lt {x y : Float} (hx : x.isNaN = false) (hy : y.isNaN = false)
    (h : ¬ x < y) : y ≤ x := by
  refine le_iff.2 ⟨hy, hx, ?_⟩
  by_contra hlt
  exact h (lt_iff.2 ⟨hx, hy, Int.not_le.1 hlt⟩)

theorem le_of_lt {x y : Float} (h : x < y) : x ≤ y := by
  rw [lt_iff] at h
  exact le_iff.2 ⟨h.1, h.2.1, h.2.2.le⟩

theorem isFinite_of_between {lo hi x : Float} (hlo : lo.isFinite = true) (hhi : hi.isFinite = true)
    (h : lo ≤ x) (h' : x ≤ hi) : x.isFinite = true := by
  rw [isFinite_iff] at hlo hhi ⊢
  rw [le_iff] at h h'
  exact ⟨h.2.1, by omega⟩

theorem le_of_beq {x y : Float} (h : (x == y) = true) : x ≤ y := by
  obtain ⟨hx, hy, heq⟩ := beq_iff.1 h
  exact le_iff.2 ⟨hx, hy, heq.le⟩

theorem ge_of_beq {x y : Float} (h : (x == y) = true) : y ≤ x := by
  obtain ⟨hx, hy, heq⟩ := beq_iff.1 h
  exact le_iff.2 ⟨hy, hx, heq.ge⟩

theorem beq_of_le_of_le {x y : Float} (h : x ≤ y) (h' : y ≤ x) : (x == y) = true := by
  rw [le_iff] at h h'
  exact beq_iff.2 ⟨h.1, h.2.1, Int.le_antisymm h.2.2 h'.2.2⟩

/-! ## The smaller and the larger of two doubles -/

theorem max_of_isNaN {x y : Float} (h : x.isNaN = true) : max x y = y := by
  rw [max, if_pos h]

theorem min_of_isNaN {x y : Float} (h : x.isNaN = true) : min x y = y := by
  rw [min, if_pos h]

theorem max_spec {x y : Float} (hx : x.isNaN = false) (hy : y.isNaN = false) :
    (max x y = x ∨ max x y = y) ∧ x ≤ max x y ∧ y ≤ max x y := by
  unfold max
  rw [hx, hy]
  by_cases h : x < y
  · rw [if_neg Bool.false_ne_true, if_neg Bool.false_ne_true, if_pos h]
    exact ⟨.inr rfl, le_of_lt h, le_self hy⟩
  · rw [if_neg Bool.false_ne_true, if_neg Bool.false_ne_true, if_neg h]
    exact ⟨.inl rfl, le_self hx, le_of_not_lt hx hy h⟩

theorem min_spec {x y : Float} (hx : x.isNaN = false) (hy : y.isNaN = false) :
    (min x y = x ∨ min x y = y) ∧ min x y ≤ x ∧ min x y ≤ y := by
  unfold min
  rw [hx, hy]
  by_cases h : y < x
  · rw [if_neg Bool.false_ne_true, if_neg Bool.false_ne_true, if_pos h]
    exact ⟨.inr rfl, le_of_lt h, le_self hy⟩
  · rw [if_neg Bool.false_ne_true, if_neg Bool.false_ne_true, if_neg h]
    exact ⟨.inl rfl, le_self hx, le_of_not_lt hy hx h⟩

end Geocast.Binary64
