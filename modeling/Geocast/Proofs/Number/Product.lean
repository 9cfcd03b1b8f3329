import Geocast.Proofs.Number.Rounding

/-!
# Products of doubles

The product of two finite doubles is a number of units of `2 ^ -2148`, rounded. Rounding keeps the
order, so multiplying by a positive double does.

* `roundProduct_mono`: rounding a product keeps the order.
* `extent_mul`: where the product with a positive finite double is put on the line.
* `isNaN_mul`: such a product is a number when the factor is.
* `signOf_unpack_ofNat`: a natural number as a double is zero, finite or infinite, and never below
  zero.
-/
namespace Geocast.Binary64
open Float.Model Float.Model.UnpackedFloat

/-! ## Rounded products -/

theorem roundDiv_mul (m d : Nat) {c : Nat} (hc : 0 < c) (tie : Tie) :
    roundDiv (m * c) (d * c) tie = roundDiv m d tie := by
  have hq : m * c / (d * c) = m / d := Nat.mul_div_mul_right m d hc
  have hr : m * c % (d * c) = m % d * c := Nat.mul_mod_mul_right c m d
  have hlt : ∀ a b : Nat, a * c < b * c ↔ a < b := fun a b => Nat.mul_lt_mul_right hc
  simp only [roundDiv, hq, hr, ← Nat.mul_assoc, hlt]

theorem roundDiv_mono {m n : Nat} (d : Nat) (h : m ≤ n) :
    roundDiv m d .even ≤ roundDiv n d .even := by
  have hq : m / d ≤ n / d := Nat.div_le_div_right h
  have hm := Nat.div_add_mod m d
  have hn := Nat.div_add_mod n d
  rcases Nat.lt_or_eq_of_le hq with hlt | heq
  · calc roundDiv m d .even ≤ m / d + 1 := by
          simp only [roundDiv]
          split
          · omega
          · split <;> omega
      _ ≤ n / d := hlt
      _ ≤ roundDiv n d .even := by
          simp only [roundDiv]
          split
          · omega
          · split <;> omega
  · have hr : m % d ≤ n % d := by
      rw [heq] at hm
      omega
    simp only [roundDiv, heq]
    split_ifs <;> omega

/-- How many bits a number of units of `2 ^ -2148` loses when it is rounded to a double. -/
def lost (n : Nat) : Nat := Max.max (n.log2 - 52) 1074

/-- A number of units of `2 ^ -2148`, such as a product of two magnitudes is, rounded to that of a
double; the result is in units. -/
def roundProduct (n : Nat) : Nat := roundDiv n (2 ^ lost n) .even * 2 ^ (lost n - 1074)

theorem roundProduct_zero : roundProduct 0 = 0 := by
  rw [roundProduct, roundDiv, Nat.zero_div, Nat.zero_mod, if_pos (Nat.two_pow_pos _), Nat.zero_mul]

theorem log2_le_log2 {m n : Nat} (h : m ≤ n) : m.log2 ≤ n.log2 := by
  by_cases h0 : m = 0
  · subst h0
    exact Nat.zero_le _
  · exact (Nat.le_log2 (by omega)).2 (Nat.le_trans (Nat.log2_self_le h0) h)

theorem log2_mul_two_pow {n : Nat} (h : n ≠ 0) (k : Nat) : (n * 2 ^ k).log2 = n.log2 + k := by
  induction k with
  | zero => rw [Nat.pow_zero, Nat.mul_one, Nat.add_zero]
  | succ k ih =>
    have hne : n * 2 ^ k ≠ 0 := Nat.mul_ne_zero h (Nat.two_pow_pos k).ne'
    rw [Nat.pow_succ, ← Nat.mul_assoc, Nat.mul_comm _ 2, Nat.log2_two_mul hne, ih]
    rfl

/-- A larger number loses as many bits, or more and then fifty-three are left. -/
theorem lost_cases {m n : Nat} (h : m ≤ n) :
    lost m = lost n ∨ lost m < lost n ∧ n.log2 = 52 + lost n := by
  have hlog := log2_le_log2 h
  simp only [lost]
  omega

theorem roundProduct_mono {m n : Nat} (h : m ≤ n) : roundProduct m ≤ roundProduct n := by
  simp only [roundProduct]
  rcases lost_cases h with heq | ⟨hlt, hfull⟩
  · rw [heq]
    exact Nat.mul_le_mul_right _ (roundDiv_mono _ h)
  · have hleast : 1074 ≤ lost m := Nat.le_max_right _ _
    have hbits : m.log2 ≤ 52 + lost m := by
      simp only [lost]
      omega
    have hn : n ≠ 0 := by
      rintro rfl
      simp only [Nat.log2_zero] at hfull
      omega
    have hquot : 2 ^ 52 ≤ n / 2 ^ lost n := by
      rw [Nat.le_div_iff_mul_le (Nat.two_pow_pos _), ← Nat.pow_add, ← hfull]
      exact Nat.log2_self_le hn
    calc roundDiv m (2 ^ lost m) .even * 2 ^ (lost m - 1074)
        ≤ 2 ^ 53 * 2 ^ (lost m - 1074) := Nat.mul_le_mul_right _ (roundDiv_le hbits)
      _ = 2 ^ 52 * 2 ^ (lost m - 1074 + 1) := by rw [Nat.pow_succ _ (lost m - 1074)]; ring
      _ ≤ 2 ^ 52 * 2 ^ (lost n - 1074) :=
          Nat.mul_le_mul_left _ (Nat.pow_le_pow_right (by decide) (by omega))
      _ ≤ roundDiv n (2 ^ lost n) .even * 2 ^ (lost n - 1074) :=
          Nat.mul_le_mul_right _ (hquot.trans (roundDiv_bounds n _).1)

theorem magnitude_mul {m n : Nat} {d e : Int} (hd : -1074 ≤ d) (he : -1074 ≤ e) :
    magnitude m d * magnitude n e = m * n * 2 ^ (d + e + 2148).toNat := by
  rw [magnitude, magnitude, Nat.mul_mul_mul_comm, ← Nat.pow_add]
  congr 2
  omega

/-- The product of two magnitudes is rounded as the product of their significands is. -/
theorem roundProduct_magnitude {m n : Nat} {d e : Int} (hm : 0 < m) (hn : 0 < n) (hd : -1074 ≤ d)
    (he : -1074 ≤ e) (h : d + e ≤ target (m * n) (d + e)) :
    roundProduct (magnitude m d * magnitude n e) =
      roundDiv (m * n) (2 ^ (target (m * n) (d + e) - (d + e)).toNat) .even *
        2 ^ (target (m * n) (d + e) + 1074).toNat := by
  have hlost : (lost (m * n * 2 ^ (d + e + 2148).toNat) : Int) = target (m * n) (d + e) + 2148 := by
    rw [lost, target, log2_mul_two_pow (Nat.mul_pos hm hn).ne']
    omega
  rw [magnitude_mul hd he, roundProduct]
  generalize lost (m * n * 2 ^ (d + e + 2148).toNat) = k at hlost
  have hk : k = (target (m * n) (d + e) - (d + e)).toNat + (d + e + 2148).toNat := by omega
  have hk' : k - 1074 = (target (m * n) (d + e) + 1074).toNat := by omega
  rw [hk', hk, Nat.pow_add, roundDiv_mul _ _ (Nat.two_pow_pos _)]

/-! ## What a product is rounded to -/

theorem limit_le_magnitude {m : Nat} {e : Int} (h : 2 ^ 52 ≤ m) (he : 971 < e) :
    limit ≤ magnitude m e := by
  have htop : topScale = 2045 := rfl
  calc limit = 2 ^ 52 * 2 ^ (topScale + 1) := by rw [limit, Nat.pow_succ _ topScale]; ring
    _ ≤ magnitude m e := Nat.mul_le_mul h (Nat.pow_le_pow_right (by decide) (by omega))

/-- A significand that was rounded up to fifty-four bits is halved. -/
theorem magnitude_carry {e : Int} (h : -1074 ≤ e) :
    magnitude (2 ^ 52) (e + 1) = magnitude (2 ^ 53) e := by
  have hscale : (e + 1 + 1074).toNat = (e + 1074).toNat + 1 := by omega
  rw [magnitude, magnitude, hscale, Nat.pow_succ _ (e + 1074).toNat]
  ring

/-- The place of a significand in canonical form: an overflow is put at the limit. -/
theorem reach_repack_finite (s : Sign) {m : Nat} {e : Int} (h : 0 < m) (hlt : m < 2 ^ 53)
    (hle : -1074 ≤ e) (hfull : e = -1074 ∨ 2 ^ 52 ≤ m) :
    reach (repack (.finite s m e h)) = s.apply (Min.min (magnitude m e) limit : Nat) := by
  rw [repack_finite s h hlt hle hfull]
  split
  next hin =>
    have hmag : magnitude m e < limit := magnitude_lt_limit ⟨hlt, hle, hin, hfull⟩
    rw [Nat.min_eq_left hmag.le]
    rfl
  next hout =>
    have hfar : limit ≤ magnitude m e :=
      limit_le_magnitude (hfull.resolve_left (by omega)) (by omega)
    rw [Nat.min_eq_right hfar]
    rfl

theorem reach_repack_fraction (s : Sign) {n d : Nat} (hd : 0 < d) {e : Int}
    (h : e ≤ target (n / d) e) :
    reach (repack (roundWithAccuracy Format.binary64 s (n / d) e (accuracyOfFraction (n % d) d))) =
      s.apply (Min.min
        (roundDiv n (d * 2 ^ (target (n / d) e - e).toNat) .even *
          2 ^ (target (n / d) e + 1074).toNat)
        limit : Nat) := by
  have hleast : -1074 ≤ target (n / d) e := Int.le_max_right _ _
  have hfull : target (n / d) e = -1074 ∨
      (n / d).log2 = 52 + (target (n / d) e - e).toNat := by
    simp only [target] at h ⊢
    omega
  have hlog : (n / d).log2 ≤ 52 + (target (n / d) e - e).toNat := by
    simp only [target] at h ⊢
    omega
  have hle := roundDiv_fraction_le hlog
  have hge : target (n / d) e = -1074 ∨
      2 ^ 52 ≤ roundDiv n (d * 2 ^ (target (n / d) e - e).toNat) .even := by
    refine hfull.imp_right fun hlog => ?_
    refine Nat.le_trans ?_ (roundDiv_bounds n _).1
    have hne : n / d ≠ 0 := by
      intro h0
      rw [h0, Nat.log2_zero] at hlog
      omega
    rw [← Nat.div_div_eq_div_mul, Nat.le_div_iff_mul_le (Nat.two_pow_pos _), ← Nat.pow_add, ← hlog]
    exact Nat.log2_self_le hne
  rw [roundWithAccuracy_fraction s hd h]
  dsimp only
  generalize roundDiv n (d * 2 ^ (target (n / d) e - e).toNat) .even = r at hle hge ⊢
  generalize target (n / d) e = t at hleast hge ⊢
  split
  next h0 =>
    rw [repack_zero, h0, Nat.zero_mul, Nat.zero_min]
    cases s <;> rfl
  next h0 =>
  split
  next hlt => exact reach_repack_finite s _ hlt hleast hge
  next hlt =>
    obtain rfl : r = 2 ^ 53 := by omega
    rw [reach_repack_finite s _ (by decide) (by omega) (.inr (Nat.le_refl _)),
      magnitude_carry hleast, magnitude]

theorem reach_repack_round (s : Sign) {m : Nat} {e : Int} (h : e ≤ target m e) :
    reach (repack (roundWithAccuracy Format.binary64 s m e .exact)) =
      s.apply (Min.min
        (roundDiv m (2 ^ (target m e - e).toNat) .even * 2 ^ (target m e + 1074).toNat)
        limit : Nat) := by
  have hreach := reach_repack_fraction s (n := m) Nat.one_pos (e := e) (by rwa [Nat.div_one])
  rwa [Nat.div_one, Nat.mod_one, Nat.one_mul] at hreach

/-- A product of two significands in canonical form has bits to spare. -/
theorem le_target_mul {m n : Nat} {d e : Int} (hm : IsCanonical m d) (hn : IsCanonical n e)
    (hmp : 0 < m) (hnp : 0 < n) : d + e ≤ target (m * n) (d + e) := by
  have hd := hm.ge
  have he := hn.ge
  have hlog : ∀ {k}, 2 ^ k ≤ m * n → k ≤ (m * n).log2 :=
    (Nat.le_log2 (Nat.mul_pos hmp hnp).ne').2
  have hspare : d + e ≤ -1074 ∨ 52 ≤ (m * n).log2 := by
    rcases hm.full with hmin | hbig
    · rcases hn.full with hmin' | hbig
      · left
        omega
      · exact .inr (hlog (Nat.le_trans hbig (Nat.le_mul_of_pos_left n hmp)))
    · exact .inr (hlog (Nat.le_trans hbig (Nat.le_mul_of_pos_right m hnp)))
  simp only [target]
  omega

/-- The magnitude of a double after it is multiplied by another one; both are in units. -/
def stretch (k n : Nat) : Nat := if n < limit then Min.min (roundProduct (n * k)) limit else limit

theorem stretch_zero (k : Nat) : stretch k 0 = 0 := by
  rw [stretch, if_pos limit_pos, Nat.zero_mul, roundProduct_zero, Nat.zero_min]

theorem stretch_limit (k : Nat) : stretch k limit = limit := by
  rw [stretch, if_neg (Nat.lt_irrefl _)]

theorem stretch_mono (k : Nat) {m n : Nat} (h : m ≤ n) : stretch k m ≤ stretch k n := by
  simp only [stretch]
  by_cases hn : n < limit
  · rw [if_pos hn, if_pos (Nat.lt_of_le_of_lt h hn)]
    have hround := roundProduct_mono (Nat.mul_le_mul_right k h)
    omega
  · rw [if_neg hn]
    split
    · exact Nat.min_le_right _ _
    · exact Nat.le_refl _

/-- A map of magnitudes as a map of the line that keeps signs. -/
def oddly (f : Nat → Nat) (z : Int) : Int := if z < 0 then -f z.natAbs else f z.natAbs

theorem oddly_apply {f : Nat → Nat} (h0 : f 0 = 0) (s : Sign) (n : Nat) :
    oddly f (s.apply n) = s.apply (f n : Nat) := by
  cases s with
  | positive =>
    change oddly f n = f n
    rw [oddly, if_neg (by omega), Int.natAbs_natCast]
  | negative =>
    change oddly f (-n) = -f n
    rw [oddly, Int.natAbs_neg, Int.natAbs_natCast]
    split
    · rfl
    · obtain rfl : n = 0 := by omega
      rw [h0]
      rfl

theorem oddly_mono {f : Nat → Nat} (hf : ∀ {m n}, m ≤ n → f m ≤ f n) {z w : Int} (h : z ≤ w) :
    oddly f z ≤ oddly f w := by
  simp only [oddly]
  split
  next hz =>
    split
    next hw =>
      have := hf (show w.natAbs ≤ z.natAbs by omega)
      omega
    next hw => omega
  next hz =>
    have := hf (show z.natAbs ≤ w.natAbs by omega)
    rw [if_neg (by omega)]
    omega

theorem unpack_mul (x y : Float) : (x * y).toModel.unpack =
    repack (UnpackedFloat.mul Format.binary64 x.toModel.unpack y.toModel.unpack) := rfl

theorem extent_mul {x y : Float} {m : Nat} {e : Int} {hm : 0 < m} (hx : x.isNaN = false)
    (hy : y.toModel.unpack = .finite .positive m e hm) :
    extent (x * y) = oddly (stretch (magnitude m e)) (extent x) := by
  have hcy : IsCanonical m e := by
    have := fits_unpack y
    rwa [hy] at this
  have hcx := fits_unpack x
  have hnx : x.toModel.unpack.isNaN = false := hx
  have hpos : ∀ s : Sign, s * .positive = s := by
    intro s
    cases s <;> rfl
  rw [extent, extent, unpack_mul, hy]
  cases hux : x.toModel.unpack with
  | notANumber => rw [hux] at hnx; cases hnx
  | infinity s =>
    rw [UnpackedFloat.mul, repack_infinity, hpos, reach, oddly_apply (stretch_zero _),
      stretch_limit]
  | zero s =>
    rw [UnpackedFloat.mul, repack_zero, reach, reach, oddly]
    rw [if_neg (by decide), Int.natAbs_zero, stretch_zero]
    rfl
  | finite s n d hn =>
    rw [hux] at hcx
    have hlt : magnitude n d < limit := magnitude_lt_limit hcx
    have hspare := le_target_mul hcx hcy hn hm
    rw [UnpackedFloat.mul, hpos, reach_repack_round s hspare, reach,
      oddly_apply (stretch_zero _), stretch, if_pos hlt,
      roundProduct_magnitude hn hm hcx.le hcy.le hspare]

/-! ## Signs of products -/

theorem signOf_mul {u : UnpackedFloat} {m : Nat} {e : Int} {h : 0 < m} :
    signOf (UnpackedFloat.mul Format.binary64 u (.finite .positive m e h)) = signOf u := by
  cases u with
  | notANumber => rfl
  | infinity s => cases s <;> rfl
  | zero s => cases s <;> rfl
  | finite s n d hn =>
    rw [UnpackedFloat.mul, signOf_roundWithAccuracy]
    cases s <;> rfl

theorem isNaN_mul {x y : Float} {m : Nat} {e : Int} {h : 0 < m}
    (hy : y.toModel.unpack = .finite .positive m e h) : (x * y).isNaN = x.isNaN := by
  change (x * y).toModel.unpack.isNaN = x.toModel.unpack.isNaN
  rw [isNaN_eq, isNaN_eq, unpack_mul, hy, signOf_repack, signOf_mul]

theorem mul_le_mul_of_le {x y g : Float} {m : Nat} {e : Int} {hm : 0 < m}
    (hg : g.toModel.unpack = .finite .positive m e hm) (h : x ≤ y) : x * g ≤ y * g := by
  obtain ⟨hx, hy, hle⟩ := le_iff.1 h
  refine le_iff.2 ⟨(isNaN_mul hg).trans hx, (isNaN_mul hg).trans hy, ?_⟩
  rw [extent_mul hx hg, extent_mul hy hg]
  exact oddly_mono (stretch_mono _) hle

theorem signOf_normalize (spec : Format) (n : Nat) :
    signOf (UnpackedFloat.normalize spec n 0 .positive) = some .positive := by
  unfold UnpackedFloat.normalize
  cases n with
  | zero => rfl
  | succ n =>
    have hgt : compare ((n + 1 : Nat) : Int) 0 = .gt := Int.compare_eq_gt.2 (by omega)
    rw [hgt]
    unfold UnpackedFloat.round
    exact signOf_roundWithAccuracy _ _ _ _ _

/-- A natural number as a double is zero, finite or infinite, and never below zero. -/
theorem signOf_unpack_ofNat (n : Nat) : signOf (Float.ofNat n).toModel.unpack = some .positive := by
  change signOf (Float.ofScientific n false 0).toModel.unpack = _
  rw [Float.ofScientific]
  split
  · have hone : (Float.ofBits 0x3FF0000000000000).toModel.unpack =
        .finite .positive (2 ^ 52) (-52) (by decide) := by rfl
    change signOf (n.toUInt64.toFloat * Float.ofBits 0x3FF0000000000000).toModel.unpack = _
    rw [unpack_mul, hone, signOf_repack, signOf_mul]
    change signOf (repack (UnpackedFloat.normalize _ _ _ _)) = _
    rw [signOf_repack]
    exact signOf_normalize _ _
  · change signOf (repack (UnpackedFloat.ofScientific Format.binary64 n 0)) = _
    rw [signOf_repack, UnpackedFloat.ofScientific]
    split
    · rfl
    · split
      · rfl
      · split
        · rfl
        · rw [if_pos (Int.le_refl 0), signOf_mul]
          rfl

end Geocast.Binary64
