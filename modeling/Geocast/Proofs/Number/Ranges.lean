import Geocast.Proofs.Number.Angles
import Geocast.Proofs.Number.Mirror
import Geocast.Proofs.Number.Whole

/-!
# Ranges of the elementary functions

Sines, cosines and angles are alternating sums of falling terms in fixed point, rounded once. An
alternating sum lies between zero and its first term however early it is broken off and however its
terms are cut, and rounding keeps the order. So no sine leaves the range from minus one to one, and
no angle of the first quadrant is past a quarter turn.

* `alternating_range`, `arctanSum_range`: alternating sums.
* `extent_nearest`: the double closest to a fixed-point number.
* `WithinOne.mul`, `WithinOne.square`: products of numbers up to one.
* `sin_range`, `cos_range`, `polarAngle_range`: the functions of doubles.
-/
namespace Geocast

namespace Binary64
open Float.Model Float.Model.UnpackedFloat

/-! ## Closest doubles -/

/-- The closest double depends on the number alone, not on how it is split. -/
theorem nearest_scale (negative : Bool) (m : Nat) (e : Int) (k : Nat) :
    nearest negative (m * 2 ^ k) (e - k) = nearest negative m e := by
  have hpos : ∀ j, 0 < 2 ^ j := Nat.two_pow_pos
  unfold nearest
  by_cases hm : m = 0
  · subst hm
    simp only [Nat.zero_mul, ↓reduceIte]
  · have htarget : Max.max (((m * 2 ^ k).log2 : Int) + (e - k) - 52) (-1074) =
        Max.max ((m.log2 : Int) + e - 52) (-1074) := by
      rw [log2_mul_two_pow hm]
      congr 1
      omega
    simp only [hm, (hpos k).ne', Nat.mul_eq_zero, or_self, ↓reduceIte, htarget, Nat.shiftLeft_eq,
      Nat.one_mul]
    generalize Max.max ((m.log2 : Int) + e - 52) (-1074) = t
    have hcut : (if 0 ≤ t - (e - k) then roundDiv (m * 2 ^ k) (2 ^ (t - (e - k)).toNat) .even
          else m * 2 ^ k * 2 ^ (-(t - (e - k))).toNat) =
        if 0 ≤ t - e then roundDiv m (2 ^ (t - e).toNat) .even else m * 2 ^ (-(t - e)).toNat := by
      split
      · split
        · have hsplit : (t - (e - k)).toNat = (t - e).toNat + k := by omega
          rw [hsplit, Nat.pow_add, roundDiv_mul _ _ (hpos k)]
        · have hsplit : k = (-(t - e)).toNat + (t - (e - k)).toNat := by omega
          have hexact : m * 2 ^ k = m * 2 ^ (-(t - e)).toNat * 2 ^ (t - (e - k)).toNat := by
            rw [Nat.mul_assoc, ← Nat.pow_add, ← hsplit]
          rw [hexact, roundDiv_mul_right _ (hpos _)]
      · have hsplit : (-(t - e)).toNat = k + (-(t - (e - k))).toNat := by omega
        rw [if_neg (by omega), hsplit, Nat.pow_add, Nat.mul_assoc]
    rw [hcut]

theorem nearest_eq_ofUnits (n : Nat) : nearest false n (-1074) = ofUnits n := by
  rw [ofUnits, decide_eq_false (by omega), Int.natAbs_natCast]

/-! ## Numbers up to one -/

/-- A double is a number between minus one and one. -/
structure WithinOne (x : Float) : Prop where
  isNaN : x.isNaN = false
  le : (extent x).natAbs ≤ (extent 1.0).natAbs

theorem WithinOne.isFinite {x : Float} (h : WithinOne x) : x.isFinite = true := by
  have hone : (1.0 : Float).isFinite = true := rfl
  exact isFinite_iff.2 ⟨h.isNaN, h.le.trans_lt (isFinite_iff.1 hone).2⟩

theorem natAbs_extent_one : ((extent 1.0).natAbs : Int) = extent 1.0 := by
  rw [extent_one_eq, Int.natAbs_natCast]

theorem Plus.zero_le_extent {x : Float} (h : Plus x) : 0 ≤ extent x := zero_le_reach h

theorem WithinOne.mul {x y : Float} (hx : WithinOne x) (hy : WithinOne y) (hpx : Plus x)
    (hpy : Plus y) : WithinOne (x * y) := by
  have hone := natAbs_extent_one
  rcases positive_cases hpy with h | h | h | ⟨m, e, hm, h⟩
  · have := hy.isNaN
    rw [show y.isNaN = true from congrArg UnpackedFloat.isNaN h] at this
    cases this
  · have hfinite := hy.isFinite
    rw [show y.isFinite = false from congrArg UnpackedFloat.isFinite h] at hfinite
    cases hfinite
  · have hzero : IsZero (x * y) := IsZero.mul hx.isFinite ⟨_, h⟩
    exact ⟨hzero.isNaN, by rw [hzero.extent]; exact Nat.zero_le _⟩
  · have hle : x ≤ 1.0 := le_iff.2 ⟨hx.isNaN, rfl, by have := hx.le; omega⟩
    have hproduct := mul_le_mul_of_le h hle
    have hunit : extent (1.0 * y) = extent y := by
      rw [Binary64.mul_comm, extent_mul_of_extent hy.isFinite rfl Nat.one_pos extent_one_eq,
        Nat.cast_one, Int.mul_one, rounded_extent hy.isFinite]
    have hle' := (le_iff.1 hproduct).2.2
    have hnonneg := (hpx.mul hpy).zero_le_extent
    have hy' := hy.le
    exact ⟨(le_iff.1 hproduct).1, by omega⟩

theorem plus_or_plus_neg (x : Float) : Plus x ∨ Plus (-x) := by
  rw [Plus, Plus, unpack_neg]
  cases x.toModel.unpack with
  | notANumber => exact .inl none_ne_negative
  | infinity s | zero s | finite s m e hm =>
    cases s with
    | positive => exact .inl positive_ne_negative
    | negative => exact .inr positive_ne_negative

theorem WithinOne.neg {x : Float} (h : WithinOne x) : WithinOne (-x) :=
  ⟨(isNaN_neg x).trans h.isNaN, by rw [extent_neg, Int.natAbs_neg]; exact h.le⟩

theorem WithinOne.square {x : Float} (hx : WithinOne x) : Plus (x * x) ∧ WithinOne (x * x) := by
  rcases plus_or_plus_neg x with h | h
  · exact ⟨h.mul h, hx.mul hx h h⟩
  · rw [← neg_mul_neg_self]
    exact ⟨h.mul h, hx.neg.mul hx.neg h h⟩

/-! ## Magnitudes -/

theorem fits_abs {u : UnpackedFloat} (h : Fits u) : Fits u.abs := by
  cases u <;> exact h

theorem extent_abs (x : Float) : extent x.abs = (extent x).natAbs := by
  rw [extent, extent, unpack_abs, repack_eq (fits_abs (fits_unpack x))]
  cases x.toModel.unpack with
  | notANumber => rfl
  | infinity s => exact (congrArg Nat.cast (natAbs_apply s limit)).symm
  | zero s => rfl
  | finite s m e hm => exact (congrArg Nat.cast (natAbs_apply s (magnitude m e))).symm

end Binary64

namespace Trigonometry
open Binary64 Float.Model Float.Model.UnpackedFloat

/-- A fixed-point number in units of the least positive double. -/
def fixedUnits (m : Nat) : Nat := m * 2 ^ (1074 - precision)

theorem nearest_eq (m : Nat) : nearest false m (-precision) = ofUnits (fixedUnits m) := by
  have hscale : (-precision : Int) - ((1074 - precision : Nat) : Int) = -1074 := rfl
  rw [← nearest_eq_ofUnits, fixedUnits, ← hscale, nearest_scale]

/-- The double closest to a fixed-point number is put where its units are rounded to. -/
theorem extent_nearest (negative : Bool) (m : Nat) :
    (nearest negative m (-precision)).isNaN = false ∧
      extent (nearest negative m (-precision)) =
        (signOfBit negative).apply (rounded (fixedUnits m)) := by
  obtain ⟨hnumber, hextent⟩ := extent_ofUnits (fixedUnits m)
  cases negative with
  | false =>
    rw [nearest_eq]
    exact ⟨hnumber, hextent⟩
  | true =>
    have hturned : nearest true m (-precision) = -nearest false m (-precision) :=
      nearest_not false _ _
    rw [hturned, isNaN_neg, extent_neg, nearest_eq, hextent]
    exact ⟨hnumber, rfl⟩

/-! ## Alternating sums -/

theorem one_eq_two_pow : one = 2 ^ precision := Nat.one_shiftLeft precision

theorem mul_le {a b : Nat} (h : b ≤ one) : mul a b ≤ a := by
  rw [mul, Nat.shiftRight_eq_div_pow, ← one_eq_two_pow]
  refine Nat.div_le_of_le_mul ?_
  rw [Nat.mul_comm]
  exact Nat.mul_le_mul_right a h

theorem mul_self_le_one {r : Nat} (h : r ≤ one) : mul r r ≤ one := (mul_le h).trans h

/-- An alternating series is broken off between zero and its first term. -/
theorem alternating_range {square : Nat} (h : square ≤ one) (fuel term k : Nat) :
    0 ≤ alternating square fuel term k ∧ alternating square fuel term k ≤ term := by
  induction fuel generalizing term k with
  | zero => exact ⟨le_refl _, Int.natCast_nonneg term⟩
  | succ fuel ih =>
    rw [alternating]
    split
    next hterm => exact ⟨le_refl _, Int.natCast_nonneg term⟩
    next hterm =>
      obtain ⟨hlow, hhigh⟩ := ih (mul term square / (k * (k + 1))) (k + 2)
      have hfall : mul term square / (k * (k + 1)) ≤ term := (Nat.div_le_self _ _).trans (mul_le h)
      omega

theorem arctanSum_range {square : Nat} (h : square ≤ one) (fuel power : Nat) {k : Nat}
    (hk : 0 < k) : 0 ≤ arctanSum square fuel power k ∧
      arctanSum square fuel power k ≤ (power / k : Nat) := by
  induction fuel generalizing power k with
  | zero => exact ⟨le_refl _, Int.natCast_nonneg _⟩
  | succ fuel ih =>
    rw [arctanSum]
    split
    next hpower => exact ⟨le_refl _, Int.natCast_nonneg _⟩
    next hpower =>
      obtain ⟨hlow, hhigh⟩ := ih (mul power square) (show 0 < k + 2 by omega)
      have hfall : mul power square / (k + 2) ≤ power / k :=
        Nat.div_le_div (mul_le h) (by omega) hk.ne'
      omega

theorem sinSmall_le {r : Nat} (h : r ≤ one) : sinSmall r ≤ r := by
  have hrange := alternating_range (mul_self_le_one h) 64 r 2
  rw [sinSmall]
  omega

theorem cosSmall_le {r : Nat} (h : r ≤ one) : cosSmall r ≤ one := by
  have hrange := alternating_range (mul_self_le_one h) 64 one 1
  rw [cosSmall]
  omega

theorem arctanSmall_le {t : Nat} (h : t ≤ one) : arctanSmall t ≤ t := by
  have hrange := arctanSum_range (mul_self_le_one h) 64 t Nat.one_pos
  rw [Nat.div_one] at hrange
  rw [arctanSmall]
  omega

/-! ## The number pi -/

/-- The first twenty digits of a quarter turn, and more than any cut takes away. -/
theorem halfPi_digits :
    157079632679489661923 * 2 ^ widePrecision + 10 ^ 20 * 2 ^ (widePrecision - precision) ≤
        10 ^ 20 * halfPi ∧
      10 ^ 20 * halfPi ≤ 157079632679489661924 * 2 ^ widePrecision := by
  decide +kernel

/-- A quarter turn has these digits with fewer bits too. -/
theorem turn_digits {bits : Nat} (h : precision ≤ bits) (h' : bits ≤ widePrecision) :
    157079632679489661923 * 2 ^ bits ≤ 10 ^ 20 * (halfPi >>> (widePrecision - bits)) ∧
      10 ^ 20 * (halfPi >>> (widePrecision - bits)) ≤ 157079632679489661924 * 2 ^ bits := by
  obtain ⟨hlow, hhigh⟩ := halfPi_digits
  have hcut : 2 ^ (widePrecision - bits) ≤ 2 ^ (widePrecision - precision) :=
    Nat.pow_le_pow_right (by decide) (by omega)
  have hsplit : 2 ^ widePrecision = 2 ^ bits * 2 ^ (widePrecision - bits) := by
    rw [← Nat.pow_add, Nat.add_sub_cancel' h']
  have hpos : 0 < 2 ^ (widePrecision - bits) := Nat.two_pow_pos _
  rw [hsplit, ← Nat.mul_assoc] at hlow hhigh
  rw [Nat.shiftRight_eq_div_pow]
  generalize 2 ^ (widePrecision - bits) = c at hcut hpos hlow hhigh ⊢
  generalize 2 ^ (widePrecision - precision) = d at hcut hlow
  have hmod := Nat.div_add_mod' halfPi c
  have hlt := Nat.mod_lt halfPi hpos
  constructor
  · refine Nat.le_of_mul_le_mul_right ?_ hpos
    rw [Nat.mul_assoc (10 ^ 20)]
    omega
  · refine Nat.le_of_mul_le_mul_right ?_ hpos
    rw [Nat.mul_assoc (10 ^ 20)]
    omega

theorem quarterTurn_digits : 157079632679489661923 * one ≤ 10 ^ 20 * quarterTurn ∧
    10 ^ 20 * quarterTurn ≤ 157079632679489661924 * one := by
  rw [one_eq_two_pow, quarterTurn]
  exact turn_digits (le_refl _) (by decide)

theorem quarterTurn_le : quarterTurn ≤ 2 * one := by
  have := quarterTurn_digits.2
  omega

/-! ## Sines -/

theorem sinAcute_le (r : Nat) : sinAcute r ≤ one := by
  have hquarter := quarterTurn_le
  rw [sinAcute]
  split
  · have hle : r ≤ one := by omega
    exact (sinSmall_le hle).trans hle
  · exact cosSmall_le (by omega)

/-! ## Arctangents -/

theorem div_le (a b : Nat) : div a (one + b) ≤ a := by
  rw [div, Nat.shiftLeft_eq, ← one_eq_two_pow]
  refine Nat.div_le_of_le_mul ?_
  rw [Nat.mul_comm]
  exact Nat.mul_le_mul_right a (Nat.le_add_right one b)

theorem le_newton {n s x : Nat} (h : s * s ≤ n) (hx : s ≤ x) : s ≤ (x + n / x) / 2 := by
  rcases Nat.eq_zero_or_pos x with rfl | hpos
  · rw [Nat.le_zero.1 hx]
    exact Nat.zero_le _
  · obtain ⟨d, rfl⟩ := Nat.exists_eq_add_of_le hx
    have hquotient : s - d ≤ n / (s + d) := by
      rw [Nat.le_div_iff_mul_le hpos, Nat.mul_comm, ← Nat.mul_self_sub_mul_self_eq]
      exact (Nat.sub_le _ _).trans h
    omega

theorem le_descend {n s : Nat} (h : s * s ≤ n) (fuel : Nat) {x : Nat} (hx : s ≤ x) :
    s ≤ descend n fuel x := by
  induction fuel generalizing x with
  | zero => exact hx
  | succ fuel ih =>
    rw [descend]
    split
    · exact ih (le_newton h hx)
    · exact hx

/-- The integer root is not below any number whose square is not above. -/
theorem le_squareRoot {n s : Nat} (h : s * s ≤ n) : s ≤ squareRoot n := by
  rw [squareRoot]
  split
  next hzero =>
    rw [hzero] at h
    exact (Nat.mul_self_le_mul_self_iff.1 h).trans (Nat.le_refl 0)
  next hn =>
    refine le_descend h _ ?_
    rw [Nat.one_shiftLeft]
    have hlt : n < 2 ^ (n.log2 + 1) := Nat.lt_log2_self
    have hpow : 2 ^ (n.log2 + 1) ≤ 2 ^ (n.log2 / 2 + 1) * 2 ^ (n.log2 / 2 + 1) := by
      rw [← Nat.pow_add]
      exact Nat.pow_le_pow_right (by decide) (by omega)
    exact (Nat.mul_self_lt_mul_self_iff.1 (h.trans_lt (hlt.trans_le hpow))).le

/-- The tangent of half an angle is at most half the tangent. -/
theorem halveTangent_le (t : Nat) : 2 * halveTangent t ≤ t := by
  have hpos : 0 < one := one_eq_two_pow ▸ Nat.two_pow_pos _
  have hroot : one ≤ squareRoot (one * one + t * t) := le_squareRoot (Nat.le_add_right _ _)
  have hdiv : div t (one + squareRoot (one * one + t * t)) ≤ t * one / (2 * one) := by
    rw [div, Nat.shiftLeft_eq, ← one_eq_two_pow]
    exact Nat.div_le_div_left (by omega) (by omega)
  rw [Nat.mul_div_mul_right t 2 hpos] at hdiv
  rw [halveTangent]
  omega

theorem arctanByHalving_le {t : Nat} (h : t ≤ one) : arctanByHalving t ≤ t := by
  have h1 := halveTangent_le t
  have h2 := halveTangent_le (halveTangent t)
  have h3 := halveTangent_le (halveTangent (halveTangent t))
  have hsmall := arctanSmall_le (t := halveTangent (halveTangent (halveTangent t))) (by omega)
  rw [arctanByHalving]
  omega

theorem thirtyTwo_nodes : 32 * 2 ^ (precision - nodeBits) = one := by
  have hbits : precision = nodeBits + (precision - nodeBits) := rfl
  rw [one_eq_two_pow, hbits, Nat.pow_add, Nat.add_sub_cancel_left]
  rfl

/-- The angles of the fractions that are known leave room up to a quarter turn. -/
theorem nodeAngles_le (k : Nat) :
    nodeAngles.getD k 0 + 2 ^ (precision - nodeBits) ≤ quarterTurn := by
  have hnodes := thirtyTwo_nodes
  have hdigits := quarterTurn_digits.1
  have hangle : nodeAngles.getD k 0 ≤ one := by
    rw [nodeAngles, Array.getD_eq_getD_getElem?, Array.getElem?_map]
    by_cases hk : k < 33
    · have hnode : k <<< (precision - nodeBits) ≤ one := by
        rw [Nat.shiftLeft_eq, ← hnodes]
        exact Nat.mul_le_mul_right _ (by omega)
      rw [Array.getElem?_range, if_pos hk]
      exact (arctanByHalving_le hnode).trans hnode
    · rw [Array.getElem?_eq_none (by rw [Array.size_range]; omega)]
      exact Nat.zero_le _
  omega
theorem sub_node_le (t : Nat) :
    t - (((t >>> (precision - nodeBits - 1)) + 1) / 2) <<< (precision - nodeBits) ≤
      2 ^ (precision - nodeBits) := by
  obtain ⟨k, hk⟩ : ∃ k, precision - nodeBits = k + 1 := ⟨122, rfl⟩
  have hpos : 0 < 2 ^ k := Nat.two_pow_pos k
  have hmod := Nat.div_add_mod t (2 ^ k)
  have hlt := Nat.mod_lt t hpos
  rw [hk, Nat.add_sub_cancel, Nat.shiftRight_eq_div_pow, Nat.shiftLeft_eq, Nat.pow_succ]
  have hhalf : t / 2 ^ k ≤ (t / 2 ^ k + 1) / 2 * 2 := by omega
  have hnode : 2 ^ k * (t / 2 ^ k) ≤ (t / 2 ^ k + 1) / 2 * (2 ^ k * 2) := by
    calc 2 ^ k * (t / 2 ^ k) ≤ 2 ^ k * ((t / 2 ^ k + 1) / 2 * 2) := Nat.mul_le_mul_left _ hhalf
      _ = (t / 2 ^ k + 1) / 2 * (2 ^ k * 2) := by ring
  omega

theorem arctanUnit_le (t : Nat) : arctanUnit t ≤ quarterTurn := by
  rw [arctanUnit]
  have hroom := nodeAngles_le (((t >>> (precision - nodeBits - 1)) + 1) / 2)
  have hnear := sub_node_le t
  generalize ((t >>> (precision - nodeBits - 1)) + 1) / 2 = k at *
  have hnodes := thirtyTwo_nodes
  have hstep : 2 ^ (precision - nodeBits) ≤ one := by omega
  have hdiv := div_le (t - k <<< (precision - nodeBits)) (mul t (k <<< (precision - nodeBits)))
  have habove := arctanSmall_le (hdiv.trans (hnear.trans hstep))
  omega

/-! ## Functions of doubles -/

theorem extent_nearest_le {m n : Nat} (h : m ≤ n) :
    extent (nearest false m (-precision)) ≤ extent (nearest false n (-precision)) := by
  have hunits : fixedUnits m ≤ fixedUnits n := Nat.mul_le_mul_right _ h
  rw [(extent_nearest false m).2, (extent_nearest false n).2]
  exact rounded_mono (by exact_mod_cast hunits)

theorem fixedUnits_one : fixedUnits one = 1 * 2 ^ 1074 := by
  have hpow : ∀ {a b : Nat}, a ≤ b → 2 ^ a * 2 ^ (b - a) = 1 * 2 ^ b := by
    intro a b h
    rw [← Nat.pow_add, Nat.add_sub_cancel' h, Nat.one_mul]
  rw [fixedUnits, one_eq_two_pow]
  exact hpow (by decide)

theorem natAbs_extent_nearest_le (negative : Bool) {m : Nat} (h : m ≤ one) :
    (extent (nearest negative m (-precision))).natAbs ≤ (extent 1.0).natAbs := by
  have hone : extent (nearest false one (-precision)) = extent 1.0 := by
    rw [(extent_nearest false one).2, fixedUnits_one, ← extent_one_eq, rounded_extent rfl]
    rfl
  have hle := extent_nearest_le h
  have hnonneg := extent_nearest_le (Nat.zero_le m)
  have hzero : extent (nearest false 0 (-precision)) = 0 := rfl
  cases negative with
  | false => omega
  | true =>
    have hturned : nearest true m (-precision) = -nearest false m (-precision) :=
      nearest_not false _ _
    rw [hturned, extent_neg]
    omega

theorem tiny_range : 2 ^ 53 * 2 ^ 882 ≤ (extent tiny).toNat ∧
    (extent tiny).toNat * 2 ^ 26 ≤ 2 ^ 1074 :=
  ⟨by decide +kernel, by decide +kernel⟩

theorem withinOne_of_tiny {x : Float} (h : x.isFinite = true) (htiny : x.abs < tiny) :
    WithinOne x := by
  have hsmall := tiny_range.2
  have hlt := (lt_iff.1 htiny).2.2
  rw [extent_abs] at hlt
  refine ⟨isNaN_of_isFinite h, ?_⟩
  rw [extent_one_eq, Int.natAbs_natCast]
  generalize 2 ^ 1074 = c at hsmall ⊢
  omega

theorem withinOne_nearest (negative : Bool) {m : Nat} (h : m ≤ one) :
    WithinOne (nearest negative m (-precision)) :=
  ⟨(extent_nearest negative m).1, natAbs_extent_nearest_le negative h⟩

theorem sin_range {x : Float} (h : x.isFinite = true) : WithinOne (sin x) := by
  unfold sin
  rw [h, Bool.not_true, if_neg Bool.false_ne_true]
  split
  next htiny => exact withinOne_of_tiny h htiny
  next =>
    refine withinOne_nearest _ ?_
    split <;> exact sinAcute_le _

theorem cos_range {x : Float} (h : x.isFinite = true) : WithinOne (cos x) := by
  unfold cos
  rw [h, Bool.not_true, if_neg Bool.false_ne_true]
  split
  next => exact ⟨rfl, le_refl _⟩
  next =>
    refine withinOne_nearest _ ?_
    split <;> exact sinAcute_le _

theorem polarAngle_range {x y : Float} (hx : x.isNaN = false) (hy : y.isNaN = false) (hpx : Plus x)
    (hpy : Plus y) :
    0.0 ≤ polarAngle x y ∧ polarAngle x y ≤ Location.toRadians 90.0 := by
  have hquarter : Location.toRadians 90.0 = nearest false quarterTurn (-precision) := by
    decide +kernel
  have hplus : ∀ {z : Float}, Plus z → z.isNaN = false → 0.0 ≤ z := fun hz hnumber =>
    hz.isNaN_or_le.resolve_left (by rw [hnumber]; exact Bool.false_ne_true)
  have hfixed : ∀ {m : Nat}, m ≤ quarterTurn → 0.0 ≤ nearest false m (-precision) ∧
      nearest false m (-precision) ≤ Location.toRadians 90.0 := by
    intro m hm
    have hnumber := (extent_nearest false m).1
    rw [hquarter]
    exact ⟨hplus (plus_nearest _ _) hnumber,
      le_iff.2 ⟨hnumber, (extent_nearest false quarterTurn).1, extent_nearest_le hm⟩⟩
  unfold polarAngle
  rw [hx, hy, Bool.or_false, if_neg Bool.false_ne_true]
  split
  next => decide +kernel
  next =>
  split
  next htiny =>
    have hsmall : tiny ≤ Location.toRadians 90.0 := by decide +kernel
    exact ⟨hplus (hpy.div hpx) (lt_iff.1 htiny).1, le_trans (le_of_lt htiny) hsmall⟩
  next =>
    refine hfixed ?_
    split
    · exact arctanUnit_le _
    · exact Nat.sub_le _ _

end Trigonometry

end Geocast
