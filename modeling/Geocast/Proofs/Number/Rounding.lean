import Geocast.Proofs.Number.Order

/-!
# Rounding to a double

A significand that is too long, or the whole part of a fraction, is shifted right bit by bit, two
more bits telling how much is lost, then it is rounded and packed. Here all of that is one rounded
quotient.

* `roundedMantissa_shiftRight`: shifting and rounding a fraction is the quotient by a power of two,
  rounded to the nearest, ties to even.
* `roundWithAccuracy_fraction`: rounding to a double, a carry out of the significand included.
* `repack_finite`: parts in canonical form come back from a packed double, or infinity where the
  exponent is too large.
* `signOf_repack`: the sign always comes back.
-/
namespace Geocast.Binary64
open Float.Model Float.Model.UnpackedFloat

/-! ## Shifting and rounding a fraction -/

/-- What is known of a fraction before bits are shifted out: its whole part, whether the rest is at
least a half, and whether the rest is neither nothing nor a half. -/
def ofFraction (n d : Nat) : ExtendedMantissa :=
  .ofMantissaAndAccuracy (n / d) (accuracyOfFraction (n % d) d)

theorem ofFraction_spec (n : Nat) {d : Nat} (hd : 0 < d) :
    (ofFraction n d).mantissa = n / d ∧
      ((ofFraction n d).roundBit = true ↔ d ≤ 2 * (n % d)) ∧
      ((ofFraction n d).stickyBit = true ↔ 2 * (n % d) % d ≠ 0) := by
  have hlt := Nat.mod_lt n hd
  rw [ofFraction, accuracyOfFraction]
  generalize n % d = r at hlt
  split
  next h0 =>
    subst h0
    simpa [ExtendedMantissa.ofMantissaAndAccuracy] using hd.ne'
  next h0 =>
    rcases Nat.lt_trichotomy (2 * r) d with h | h | h
    · rw [Nat.compare_eq_lt.2 h, Nat.mod_eq_of_lt h]
      simp [ExtendedMantissa.ofMantissaAndAccuracy, h, h0]
    · rw [Nat.compare_eq_eq.2 h, h, Nat.mod_self]
      simp [ExtendedMantissa.ofMantissaAndAccuracy]
    · rw [Nat.compare_eq_gt.2 h, Nat.mod_eq_sub_mod h.le, Nat.mod_eq_of_lt (by omega)]
      simp [ExtendedMantissa.ofMantissaAndAccuracy, h.le]
      omega

/-- What is kept of a fraction after some bits are shifted out: the quotient, whether at least
half a unit is lost, and whether what is lost is neither nothing nor half a unit. -/
theorem shiftRight_spec (n : Nat) {d : Nat} (hd : 0 < d) (k : Nat) :
    let em := ofFraction n d >>> k
    em.mantissa = n / (d * 2 ^ k) ∧ (em.roundBit = true ↔ d * 2 ^ k ≤ 2 * (n % (d * 2 ^ k))) ∧
      (em.stickyBit = true ↔ 2 * (n % (d * 2 ^ k)) % (d * 2 ^ k) ≠ 0) := by
  induction k with
  | zero =>
    rw [Nat.pow_zero, Nat.mul_one]
    exact ofFraction_spec n hd
  | succ k ih =>
    obtain ⟨hq, hr, hs⟩ := ih
    have hstep : ofFraction n d >>> (k + 1) = (ofFraction n d >>> k).shiftRightOne := rfl
    have hpos : 0 < d * 2 ^ k := Nat.mul_pos hd (Nat.two_pow_pos k)
    rw [Nat.pow_succ, ← Nat.mul_assoc]
    generalize d * 2 ^ k = c at hq hr hs hpos ⊢
    have hmod : n % (c * 2) = n % c + c * (n / c % 2) := Nat.mod_mul
    have hlt := Nat.mod_lt n hpos
    have hbit := Nat.mod_lt (n / c) (show 0 < 2 by decide)
    dsimp only
    rw [hstep, hmod]
    refine ⟨?_, ?_, ?_⟩
    · rw [ExtendedMantissa.shiftRightOne, hq, Nat.div_div_eq_div_mul]
    · rw [ExtendedMantissa.shiftRightOne, hq]
      rcases Nat.mod_two_eq_zero_or_one (n / c) with h | h <;> simp [h] <;> omega
    · have hdouble : 2 * (n % c + c * (n / c % 2)) % (c * 2) = 2 * (n % c) := by
        rw [Nat.mul_comm c 2, Nat.mul_mod_mul_left, Nat.add_mul_mod_self_left,
          Nat.mod_eq_of_lt hlt]
      rw [hdouble, ExtendedMantissa.shiftRightOne, Bool.or_eq_true, hr, hs]
      by_cases h : c ≤ 2 * (n % c)
      · exact iff_of_true (.inl h) (by omega)
      · rw [Nat.mod_eq_of_lt (Nat.not_le.1 h)]
        exact ⟨fun h' => h'.resolve_left h, .inr⟩

/-- Shifting out `k` bits and rounding is rounding the fraction of a `2 ^ k`-th. -/
theorem roundedMantissa_shiftRight (n : Nat) {d : Nat} (hd : 0 < d) (k : Nat) :
    (ofFraction n d >>> k).roundedMantissa = roundDiv n (d * 2 ^ k) .even := by
  obtain ⟨hq, hr, hs⟩ := shiftRight_spec n hd k
  have hpos : 0 < d * 2 ^ k := Nat.mul_pos hd (Nat.two_pow_pos k)
  generalize d * 2 ^ k = c at hq hr hs hpos ⊢
  have hlt := Nat.mod_lt n hpos
  cases hem : ofFraction n d >>> k with | mk q r s =>
  rw [hem] at hq hr hs
  simp only at hq hr hs
  rw [roundDiv]
  cases r with
  | false =>
    have h : 2 * (n % c) < c := by simpa using hr
    rw [if_pos h, ← hq]
    cases s <;> rfl
  | true =>
    have h : c ≤ 2 * (n % c) := by simpa using hr
    rw [if_neg (by omega)]
    cases s with
    | false =>
      have hzero : 2 * (n % c) % c = 0 := by simpa using hs
      have heq : 2 * (n % c) = c := by
        rw [Nat.mod_eq_sub_mod h, Nat.mod_eq_of_lt (by omega)] at hzero
        omega
      rw [if_neg (by omega), ← hq]
      rfl
    | true =>
      have hne : 2 * (n % c) % c ≠ 0 := by simpa using hs
      have hlt' : c < 2 * (n % c) := by
        refine Nat.lt_of_le_of_ne h fun he => hne ?_
        rw [← he, Nat.mod_self]
      rw [if_pos hlt', ← hq]
      rfl

/-- The exponent to which a positive significand is shifted before it is rounded. -/
def target (m : Nat) (e : Int) : Int := Max.max ((m.log2 : Int) + e - 52) (-1074)

theorem targetExponent_eq (m : Nat) (e : Int) :
    Format.targetExponent Format.binary64 (totalExponent m e) = target m e := by
  simp only [Format.targetExponent, totalExponent, Format.mantissaBits, Format.minExponent, target]
  norm_num
  omega

theorem shiftToTargetExponent_eq (m : Nat) (e : Int) (a : Accuracy) :
    shiftToTargetExponent Format.binary64 m e a =
      (ExtendedMantissa.ofMantissaAndAccuracy m a >>> (target m e - e).toNat,
        e + (target m e - e).toNat) := by
  rw [shiftToTargetExponent, targetExponent_eq]
  rfl

theorem shiftToTargetExponent_of_lt {m : Nat} {e : Int} (hm : m < 2 ^ 53) (he : -1074 ≤ e) :
    shiftToTargetExponent Format.binary64 m e .exact = (⟨m, false, false⟩, e) := by
  have hlog : m.log2 ≤ 52 := by
    by_cases h0 : m = 0
    · rw [h0]; decide
    · have := (Nat.log2_lt h0).2 hm
      omega
  have hstay : (target m e - e).toNat = 0 := by
    simp only [target]
    omega
  rw [shiftToTargetExponent_eq, hstay, Int.natCast_zero, Int.add_zero]
  rfl

/-- A carry into a fifty-fourth bit is shifted out. -/
theorem shiftToTargetExponent_carry {e : Int} (he : -1074 ≤ e) :
    shiftToTargetExponent Format.binary64 (2 ^ 53) e .exact = (⟨2 ^ 52, false, false⟩, e + 1) := by
  have hmove : (target (2 ^ 53) e - e).toNat = 1 := by
    simp only [target, Nat.log2_two_pow]
    omega
  rw [shiftToTargetExponent_eq, hmove]
  rfl

theorem roundDiv_bounds (n d : Nat) :
    n / d ≤ roundDiv n d .even ∧ roundDiv n d .even ≤ n / d + 1 := by
  simp only [roundDiv]
  split
  · omega
  · split <;> omega

/-- What is left of a fraction has at most fifty-three bits, or is the next power of two. -/
theorem roundDiv_fraction_le {n d k : Nat} (h : (n / d).log2 ≤ 52 + k) :
    roundDiv n (d * 2 ^ k) .even ≤ 2 ^ 53 := by
  have hlt : n / (d * 2 ^ k) < 2 ^ 53 := by
    rw [← Nat.div_div_eq_div_mul, Nat.div_lt_iff_lt_mul (Nat.two_pow_pos k), ← Nat.pow_add]
    exact Nat.lt_of_lt_of_le Nat.lt_log2_self (Nat.pow_le_pow_right (by decide) (by omega))
  have := (roundDiv_bounds n (d * 2 ^ k)).2
  omega

theorem roundDiv_le {m k : Nat} (h : m.log2 ≤ 52 + k) : roundDiv m (2 ^ k) .even ≤ 2 ^ 53 := by
  have hle := roundDiv_fraction_le (n := m) (d := 1) (k := k) (by rwa [Nat.div_one])
  rwa [Nat.one_mul] at hle

/-- Rounding a fraction to a double: it is divided so that fifty-three bits are left, or fewer at
the least exponent; a carry into a fifty-fourth bit is shifted out. -/
theorem roundWithAccuracy_fraction (s : Sign) {n d : Nat} (hd : 0 < d) {e : Int}
    (h : e ≤ target (n / d) e) :
    roundWithAccuracy Format.binary64 s (n / d) e (accuracyOfFraction (n % d) d) =
      let r := roundDiv n (d * 2 ^ (target (n / d) e - e).toNat) .even
      if h0 : r = 0 then .zero s
      else if r < 2 ^ 53 then .finite s r (target (n / d) e) (Nat.pos_of_ne_zero h0)
      else .finite s (2 ^ 52) (target (n / d) e + 1) (by decide) := by
  have he : e + (target (n / d) e - e).toNat = target (n / d) e := by omega
  have hmin : -1074 ≤ target (n / d) e := by simp only [target]; omega
  have hlog : (n / d).log2 ≤ 52 + (target (n / d) e - e).toNat := by simp only [target] at h ⊢; omega
  have hle := roundDiv_fraction_le hlog
  have hround := roundedMantissa_shiftRight n hd (target (n / d) e - e).toNat
  rw [ofFraction] at hround
  rw [roundWithAccuracy, shiftToTargetExponent_eq, he]
  dsimp only
  rw [hround]
  generalize roundDiv n (d * 2 ^ (target (n / d) e - e).toNat) .even = r at hle ⊢
  by_cases hlt : r < 2 ^ 53
  · rw [shiftToTargetExponent_of_lt hlt hmin]
    simp only [hlt, ↓reduceIte]
  · obtain rfl : r = 2 ^ 53 := by omega
    rw [shiftToTargetExponent_carry hmin]
    rfl

/-! ## Packing -/

/-- The parts of the double with the given parts. -/
def repack (u : UnpackedFloat) : UnpackedFloat := (Float.Model.pack u).unpack

theorem repack_notANumber : repack .notANumber = .notANumber := rfl
theorem repack_infinity (s : Sign) : repack (.infinity s) = .infinity s := by cases s <;> rfl
theorem repack_zero (s : Sign) : repack (.zero s) = .zero s := by cases s <;> rfl

theorem finite_congr (s : Sign) {m n : Nat} {d e : Int} {hm : 0 < m} {hn : 0 < n} (h : m = n)
    (h' : d = e) : UnpackedFloat.finite s m d hm = .finite s n e hn := by
  subst h h'
  rfl

theorem repack_finite (s : Sign) {m : Nat} {e : Int} (h : 0 < m) (hlt : m < 2 ^ 53)
    (hle : -1074 ≤ e) (hfull : e = -1074 ∨ 2 ^ 52 ≤ m) :
    repack (.finite s m e h) = if e ≤ 971 then .finite s m e h else .infinity s := by
  have hbias : (e + Format.exponentBias Format.binary64 +
      Format.mantissaBitsWithoutImplicit Format.binary64).toNat = (e + 1075).toNat := by
    change (e + (1023 : Nat) + (52 : Nat)).toNat = _
    omega
  change UnpackedFloat.unpack Format.binary64 (UnpackedFloat.pack Format.binary64 _) = _
  rw [UnpackedFloat.pack]
  dsimp only
  rw [hbias]
  split
  next hover =>
    have : 972 ≤ e := by
      have : (2 : Nat) ^ 11 ≤ (e + 1075).toNat + 1 := hover
      omega
    rw [if_neg (by omega)]
    exact repack_infinity s
  next hover =>
    have htop : e ≤ 971 := by
      have : ¬(2 : Nat) ^ 11 ≤ (e + 1075).toNat + 1 := hover
      omega
    have hone : BitVec.ofNat 11 (e + 1075).toNat ≠ -1#11 := fun he => by
      have := congrArg BitVec.toNat he
      simp at this
      omega
    rw [if_pos htop]
    split
    next hlog =>
      have hlog' : m.log2 = 52 := by
        have : m.log2 + 1 = 53 := hlog
        omega
      have hge : 2 ^ 52 ≤ m := hlog' ▸ Nat.log2_self_le (by omega)
      have hexp : BitVec.ofNat 11 (e + 1075).toNat ≠ 0#11 := fun he => by
        have := congrArg BitVec.toNat he
        simp at this
        omega
      rw [UnpackedFloat.unpack]
      simp only [unpackExponent_packComponents, unpackMantissa_packComponents,
        unpackSign_packComponents, Sign.ofBitVec_toBitVec, hone, hexp, ↓reduceIte]
      refine finite_congr s ?_ ?_
      · rw [BitVec.toNat_append, ← Nat.shiftLeft_add_eq_or_of_lt (BitVec.isLt _),
          BitVec.toNat_ofNat, BitVec.toNat_ofNat]
        change 2 ^ 52 + m % 2 ^ 52 = m
        omega
      · rw [BitVec.toNat_ofNat]
        change (((e + 1075).toNat % 2 ^ 11 : Nat) : Int) - (1023 + 52 : Int) = e
        omega
    next hlog =>
      have hsub : m < 2 ^ 52 := by
        by_contra hge
        refine hlog ?_
        change m.log2 + 1 = 53
        have := (Nat.le_log2 (n := m) (k := 52) (by omega)).2 (by omega)
        have := (Nat.log2_lt (by omega)).2 hlt
        omega
      have he : e = -1074 := hfull.resolve_right (by omega)
      have hman : BitVec.ofNat 52 m ≠ 0#52 := fun h0 => by
        have := congrArg BitVec.toNat h0
        simp at this
        omega
      have hmax : ¬ (0#11 : BitVec 11) = -1#11 := by decide
      rw [UnpackedFloat.unpack]
      simp only [unpackExponent_packComponents, unpackMantissa_packComponents,
        unpackSign_packComponents, Sign.ofBitVec_toBitVec]
      rw [if_neg hmax, if_pos trivial, dif_neg hman]
      refine finite_congr s ?_ ?_
      · rw [BitVec.toNat_ofNat]
        exact Nat.mod_eq_of_lt hsub
      · rw [he]
        rfl

/-! ## Signs -/

/-- The sign of a number; NaN has none. -/
def signOf : UnpackedFloat → Option Sign
  | .notANumber => none
  | .infinity s => some s
  | .zero s => some s
  | .finite s .. => some s

theorem isNaN_eq (u : UnpackedFloat) : u.isNaN = (signOf u).isNone := by
  cases u <;> rfl

theorem signOf_unpack_packComponents (s : Sign) {exponent : BitVec 11} (mantissa : BitVec 52)
    (h : exponent ≠ -1#11) :
    signOf (UnpackedFloat.unpack Format.binary64
      (packComponents Format.binary64 s exponent mantissa)) = some s := by
  rw [UnpackedFloat.unpack]
  simp only [unpackExponent_packComponents, unpackMantissa_packComponents,
    unpackSign_packComponents, Sign.ofBitVec_toBitVec]
  split
  · contradiction
  · split
    · split <;> rfl
    · rfl

/-- Packing keeps the sign, also where it gives infinity. -/
theorem signOf_repack (u : UnpackedFloat) : signOf (repack u) = signOf u := by
  cases u with
  | notANumber => rfl
  | infinity s => rw [repack_infinity]
  | zero s => rw [repack_zero]
  | finite s m e h =>
    change signOf (UnpackedFloat.unpack Format.binary64 (UnpackedFloat.pack Format.binary64 _)) = _
    rw [UnpackedFloat.pack]
    dsimp only
    generalize (e + Format.exponentBias Format.binary64 +
      Format.mantissaBitsWithoutImplicit Format.binary64).toNat = biased
    split
    · change signOf (repack (.infinity s)) = some s
      rw [repack_infinity]
      rfl
    next hover =>
      have hfits : ¬ 2 ^ 11 ≤ biased + 1 := hover
      have hmax : BitVec.ofNat 11 biased ≠ -1#11 := by
        intro he
        have := congrArg BitVec.toNat he
        simp at this
        omega
      split
      · exact signOf_unpack_packComponents s _ hmax
      · exact signOf_unpack_packComponents s _ (by decide)

theorem signOf_roundWithAccuracy (spec : Format) (s : Sign) (m : Nat) (e : Int) (a : Accuracy) :
    signOf (roundWithAccuracy spec s m e a) = some s := by
  unfold roundWithAccuracy
  dsimp only
  split <;> rfl

end Geocast.Binary64
