import Geocast.Proofs.Number.Product

/-!
# Sums of doubles

The sum of two finite doubles is a number of units, rounded. So is their difference, and so is the
double closest to a number of units. Rounding keeps the order and leaves the doubles as they are.

* `rounded`: the place on the line where a number of units is rounded to.
* `extent_add`, `extent_sub`: where sums and differences are put.
* `rounded_mono`, `rounded_extent`: rounding keeps the order and the doubles.
* `sub_le_self`, `le_add_self`: taking something away gives no larger double, adding no smaller one.
-/
namespace Geocast.Binary64
open Float.Model Float.Model.UnpackedFloat

/-! ## Rounding a number of units -/

/-- A natural number of units rounded to that of a double. -/
def roundWhole (n : Nat) : Nat := roundProduct (n * 2 ^ 1074)

/-- The place on the line where a number of units is rounded to. -/
def rounded (z : Int) : Int := oddly (fun n => Min.min (roundWhole n) limit) z

theorem roundWhole_zero : roundWhole 0 = 0 := by
  rw [roundWhole, Nat.zero_mul, roundProduct_zero]

theorem roundWhole_mono {m n : Nat} (h : m ≤ n) : roundWhole m ≤ roundWhole n :=
  roundProduct_mono (Nat.mul_le_mul_right _ h)

theorem rounded_zero : rounded 0 = 0 := by
  rw [rounded, oddly, if_neg (Int.lt_irrefl 0), Int.natAbs_zero, roundWhole_zero, Nat.zero_min]
  rfl

theorem rounded_mono {z w : Int} (h : z ≤ w) : rounded z ≤ rounded w := by
  refine oddly_mono ?_ h
  intro m n hmn
  have := roundWhole_mono hmn
  omega

theorem rounded_apply (s : Sign) (n : Nat) :
    rounded (s.apply n) = s.apply (Min.min (roundWhole n) limit : Nat) := by
  refine oddly_apply ?_ s n
  rw [roundWhole_zero, Nat.zero_min]

theorem roundWhole_magnitude {m : Nat} {e : Int} (hm : 0 < m) (he : -1074 ≤ e)
    (h : e ≤ target m e) :
    roundWhole (magnitude m e) =
      roundDiv m (2 ^ (target m e - e).toNat) .even * 2 ^ (target m e + 1074).toNat := by
  have hone : magnitude (2 ^ 52) (-52) = 2 ^ 1074 := by
    rw [magnitude, ← Nat.pow_add]
    congr 1
  have htarget : target (m * 2 ^ 52) (e + -52) = target m e := by
    rw [target, target, log2_mul_two_pow hm.ne']
    omega
  have hshift : (target m e - (e + -52)).toNat = (target m e - e).toNat + 52 := by omega
  rw [roundWhole, ← hone, roundProduct_magnitude hm (by decide) he (by decide) (by omega), htarget,
    hshift, Nat.pow_add, roundDiv_mul _ _ (by decide)]

theorem target_of_canonical {m : Nat} {e : Int} (h : IsCanonical m e) (hm : 0 < m) :
    target m e = e := by
  have hle := h.le
  have hlog : m.log2 < 53 := (Nat.log2_lt hm.ne').2 h.lt
  rw [target]
  rcases h.full with hmin | hbig
  · omega
  · have : 52 ≤ m.log2 := (Nat.le_log2 hm.ne').2 hbig
    omega

theorem roundWhole_of_canonical {m : Nat} {e : Int} (h : IsCanonical m e) (hm : 0 < m) :
    roundWhole (magnitude m e) = magnitude m e := by
  have htarget := target_of_canonical h hm
  rw [roundWhole_magnitude hm h.le htarget.ge, htarget, Int.sub_self, Int.toNat_zero, Nat.pow_zero,
    roundDiv, Nat.mod_one, Nat.div_one]
  rfl

theorem rounded_reach {u : UnpackedFloat} (h : Fits u) (hf : u.isFinite = true) :
    rounded (reach u) = reach u := by
  cases u with
  | notANumber => cases hf
  | infinity s => cases hf
  | zero s => exact rounded_zero
  | finite s m e hm =>
    have hlt := magnitude_lt_limit h
    rw [reach, rounded_apply, roundWhole_of_canonical h hm, Nat.min_eq_left hlt.le]

theorem rounded_extent {x : Float} (h : x.isFinite = true) : rounded (extent x) = extent x :=
  rounded_reach (fits_unpack x) h

theorem natAbs_rounded (z : Int) : (rounded z).natAbs = Min.min (roundWhole z.natAbs) limit := by
  unfold rounded oddly
  split
  · rw [Int.natAbs_neg, Int.natAbs_natCast]
  · rw [Int.natAbs_natCast]

/-- What is not further out than a finite double is rounded to nothing further out. -/
theorem natAbs_rounded_le {z : Int} {x : Float} (hx : x.isFinite = true)
    (h : z.natAbs ≤ (extent x).natAbs) : (rounded z).natAbs ≤ (extent x).natAbs := by
  have hround := roundWhole_mono h
  have hfix := natAbs_rounded (extent x)
  rw [rounded_extent hx] at hfix
  rw [natAbs_rounded]
  omega

/-! ## Sums -/

theorem reach_repack_normalize {n e : Int} (he : -1074 ≤ e) :
    reach (repack (UnpackedFloat.normalize Format.binary64 n e .positive)) =
      rounded (n * 2 ^ (e + 1074).toNat) := by
  have hround : ∀ (s : Sign) {m : Nat}, 0 < m →
      reach (repack (UnpackedFloat.round Format.binary64 s m e)) =
        rounded (s.apply (magnitude m e : Nat)) := by
    intro s m hm
    have hleast : -1074 ≤ target m e := Int.le_max_right _ _
    obtain ⟨k, hk⟩ : ∃ k, k = (e - target m e).toNat := ⟨_, rfl⟩
    have htarget : target (m * 2 ^ k) (e - k) = target m e := by
      rw [target, target, log2_mul_two_pow hm.ne']
      omega
    have hmagnitude : magnitude (m * 2 ^ k) (e - k) = magnitude m e := by
      have hpow : (e + 1074).toNat = k + (e - k + 1074).toNat := by omega
      rw [magnitude, magnitude, hpow, Nat.pow_add, Nat.mul_assoc]
    unfold UnpackedFloat.round decreaseExponent
    rw [targetExponent_eq]
    dsimp only
    rw [Nat.shiftLeft_eq, ← hk, reach_repack_round s (by omega),
      ← roundWhole_magnitude (Nat.mul_pos hm (Nat.two_pow_pos _)) (by omega) (by omega),
      hmagnitude, rounded_apply]
  unfold UnpackedFloat.normalize
  rcases Int.lt_trichotomy n 0 with h | rfl | h
  · rw [Int.compare_eq_lt.2 h]
    dsimp only
    rw [hround .negative (by omega)]
    congr 1
    change -((_ * 2 ^ _ : Nat) : Int) = _
    push_cast
    rw [Int.toNat_of_nonneg (by omega)]
    ring
  · rw [Std.compare_self, Int.zero_mul, rounded_zero]
    dsimp only
    rw [repack_zero, reach]
  · rw [Int.compare_eq_gt.2 h]
    dsimp only
    rw [hround .positive (by omega)]
    congr 1
    change ((_ * 2 ^ _ : Nat) : Int) = _
    push_cast
    rw [Int.toNat_of_nonneg (by omega)]

theorem repack_of_fits {s : Sign} {m : Nat} {e : Int} {hm : 0 < m}
    (h : Fits (.finite s m e hm)) : repack (.finite s m e hm) = .finite s m e hm := by
  rw [repack_finite s hm h.lt h.le h.full, if_pos h.ge]

theorem reach_add {u v : UnpackedFloat} (hu : Fits u) (hv : Fits v) (hfu : u.isFinite = true)
    (hfv : v.isFinite = true) :
    reach (repack (UnpackedFloat.add Format.binary64 u v)) = rounded (reach u + reach v) := by
  cases u with
  | notANumber => cases hfu
  | infinity s => cases hfu
  | zero s =>
    cases v with
    | notANumber => cases hfv
    | infinity t => cases hfv
    | zero t => cases s <;> cases t <;> exact rounded_zero.symm
    | finite t n d hn =>
      change reach (repack (.finite t n d hn)) = _
      rw [repack_of_fits hv]
      change _ = rounded (0 + reach _)
      rw [Int.zero_add, rounded_reach hv hfv]
  | finite s m e hm =>
    cases v with
    | notANumber => cases hfv
    | infinity t => cases hfv
    | zero t =>
      change reach (repack (.finite s m e hm)) = _
      rw [repack_of_fits hu]
      change _ = rounded (reach _ + 0)
      rw [Int.add_zero, rounded_reach hu hfu]
    | finite t n d hn =>
      have hle := hu.le
      have hle' := hv.le
      rw [UnpackedFloat.add]
      dsimp only [decreaseExponent]
      rw [reach_repack_normalize (by omega), Nat.shiftLeft_eq, Nat.shiftLeft_eq]
      congr 1
      have hpow : ∀ c : Int, Min.min e d ≤ c →
          (c + 1074).toNat = (c - Min.min e d).toNat + (Min.min e d + 1074).toNat := by omega
      have hs := hpow e (by omega)
      have ht := hpow d (by omega)
      rw [reach, reach, magnitude, magnitude, hs, ht, Nat.pow_add, Nat.pow_add]
      cases s <;> cases t <;> simp only [Sign.apply] <;> push_cast <;> ring

theorem unpack_add (x y : Float) : (x + y).toModel.unpack =
    repack (UnpackedFloat.add Format.binary64 x.toModel.unpack y.toModel.unpack) := rfl

theorem unpack_sub (x y : Float) : (x - y).toModel.unpack =
    repack (UnpackedFloat.sub Format.binary64 x.toModel.unpack y.toModel.unpack) := rfl

/-- The sum of two finite doubles is put where the sum of their places is rounded to. -/
theorem extent_add {x y : Float} (hx : x.isFinite = true) (hy : y.isFinite = true) :
    extent (x + y) = rounded (extent x + extent y) := by
  rw [extent, unpack_add]
  exact reach_add (fits_unpack x) (fits_unpack y) hx hy

/-! ## Differences -/

theorem neg_apply (s : Sign) (n : Int) : (-s).apply n = -s.apply n := by
  cases s with
  | negative => exact (Int.neg_neg n).symm
  | positive => rfl

theorem sub_eq_add_neg (u v : UnpackedFloat) :
    UnpackedFloat.sub Format.binary64 u v = UnpackedFloat.add Format.binary64 u v.neg := by
  cases u <;> cases v
  case finite.finite s m e hm t n d hn =>
    simp only [UnpackedFloat.sub, UnpackedFloat.add, UnpackedFloat.neg, neg_apply,
      Int.sub_eq_add_neg]
  all_goals rfl

theorem reach_neg (u : UnpackedFloat) : reach u.neg = -reach u := by
  cases u with
  | notANumber => rfl
  | infinity s => exact neg_apply s limit
  | zero s => rfl
  | finite s m e hm => exact neg_apply s (magnitude m e)

theorem fits_neg {u : UnpackedFloat} (h : Fits u) : Fits u.neg := by
  cases u <;> exact h

theorem isFinite_neg (u : UnpackedFloat) : u.neg.isFinite = u.isFinite := by
  cases u <;> rfl

theorem extent_sub {x y : Float} (hx : x.isFinite = true) (hy : y.isFinite = true) :
    extent (x - y) = rounded (extent x - extent y) := by
  rw [extent, unpack_sub, sub_eq_add_neg, reach_add (fits_unpack x) (fits_neg (fits_unpack y)) hx
    ((isFinite_neg _).trans hy), reach_neg, Int.sub_eq_add_neg]
  rfl

/-! ## Taking away and adding what is not negative -/

theorem isNaN_normalize (n e : Int) :
    (repack (UnpackedFloat.normalize Format.binary64 n e .positive)).isNaN = false := by
  rw [isNaN_eq, signOf_repack]
  unfold UnpackedFloat.normalize UnpackedFloat.round
  split
  · rw [signOf_roundWithAccuracy]
    rfl
  · rfl
  · rw [signOf_roundWithAccuracy]
    rfl

theorem isNaN_repack_add {u v : UnpackedFloat} (hu : u.isFinite = true) (hv : v.isFinite = true) :
    (repack (UnpackedFloat.add Format.binary64 u v)).isNaN = false := by
  cases u with
  | notANumber => cases hu
  | infinity s => cases hu
  | zero s =>
    cases v with
    | notANumber => cases hv
    | infinity t => cases hv
    | zero t => cases s <;> cases t <;> rfl
    | finite t n d hn =>
      rw [isNaN_eq, signOf_repack]
      rfl
  | finite s m e hm =>
    cases v with
    | notANumber => cases hv
    | infinity t => cases hv
    | zero t =>
      rw [isNaN_eq, signOf_repack]
      rfl
    | finite t n d hn => exact isNaN_normalize _ _

theorem isNaN_add {x y : Float} (hx : x.isFinite = true) (hy : y.isFinite = true) :
    (x + y).isNaN = false := isNaN_repack_add hx hy

theorem isNaN_sub {x y : Float} (hx : x.isFinite = true) (hy : y.isFinite = true) :
    (x - y).isNaN = false := by
  change (repack (UnpackedFloat.sub Format.binary64 x.toModel.unpack y.toModel.unpack)).isNaN = _
  rw [sub_eq_add_neg]
  exact isNaN_repack_add hx ((isFinite_neg _).trans hy)

theorem extent_zero : extent 0.0 = 0 := rfl

theorem isFinite_or_eq_infinity {d : Float} (h : 0.0 ≤ d) :
    d.isFinite = true ∨ d.toModel.unpack = .infinity .positive := by
  obtain ⟨-, hnan, hle⟩ := le_iff.1 h
  have hn : d.toModel.unpack.isNaN = false := hnan
  have hlim := limit_pos
  rw [extent_zero, extent] at hle
  cases hd : d.toModel.unpack with
  | notANumber => rw [hd] at hn; cases hn
  | infinity s =>
    cases s with
    | negative =>
      rw [hd, reach, Sign.apply] at hle
      omega
    | positive => exact .inr rfl
  | zero s => exact .inl (congrArg UnpackedFloat.isFinite hd)
  | finite s m e hm => exact .inl (congrArg UnpackedFloat.isFinite hd)

theorem parts_of_isFinite {x : Float} (h : x.isFinite = true) :
    (∃ s, x.toModel.unpack = .zero s) ∨ ∃ s m e hm, x.toModel.unpack = .finite s m e hm := by
  have hf : x.toModel.unpack.isFinite = true := h
  cases hu : x.toModel.unpack with
  | notANumber => rw [hu] at hf; cases hf
  | infinity s => rw [hu] at hf; cases hf
  | zero s => exact .inl ⟨s, rfl⟩
  | finite s m e hm => exact .inr ⟨s, m, e, hm, rfl⟩

theorem sub_le_self {x d : Float} (hx : x.isFinite = true) (hd : 0.0 ≤ d) : x - d ≤ x := by
  have hnan := isNaN_of_isFinite hx
  have hle : 0 ≤ extent d := by
    have := (le_iff.1 hd).2.2
    rwa [extent_zero] at this
  rw [le_iff]
  rcases isFinite_or_eq_infinity hd with hfin | hinf
  · refine ⟨isNaN_sub hx hfin, hnan, ?_⟩
    calc extent (x - d) = rounded (extent x - extent d) := extent_sub hx hfin
      _ ≤ rounded (extent x) := rounded_mono (by omega)
      _ = extent x := rounded_extent hx
  · have hfar := (isFinite_iff.1 hx).2
    have hsub : (x - d).toModel.unpack = .infinity .negative := by
      rw [unpack_sub, hinf]
      rcases parts_of_isFinite hx with ⟨s, hs⟩ | ⟨s, m, e, hm, hs⟩ <;> rw [hs] <;>
        exact repack_infinity .negative
    refine ⟨congrArg UnpackedFloat.isNaN hsub, hnan, ?_⟩
    rw [extent, hsub]
    change -(limit : Int) ≤ extent x
    omega

theorem le_add_self {x d : Float} (hx : x.isFinite = true) (hd : 0.0 ≤ d) : x ≤ x + d := by
  have hnan := isNaN_of_isFinite hx
  have hle : 0 ≤ extent d := by
    have := (le_iff.1 hd).2.2
    rwa [extent_zero] at this
  rw [le_iff]
  rcases isFinite_or_eq_infinity hd with hfin | hinf
  · refine ⟨hnan, isNaN_add hx hfin, ?_⟩
    calc extent x = rounded (extent x) := (rounded_extent hx).symm
      _ ≤ rounded (extent x + extent d) := rounded_mono (by omega)
      _ = extent (x + d) := (extent_add hx hfin).symm
  · have hfar := (isFinite_iff.1 hx).2
    have hadd : (x + d).toModel.unpack = .infinity .positive := by
      rw [unpack_add, hinf]
      rcases parts_of_isFinite hx with ⟨s, hs⟩ | ⟨s, m, e, hm, hs⟩ <;> rw [hs] <;>
        exact repack_infinity .positive
    refine ⟨hnan, congrArg UnpackedFloat.isNaN hadd, ?_⟩
    rw [extent, extent, hadd]
    change extent x ≤ (limit : Int)
    omega

/-! ## Zeros -/

/-- A zero of either sign. -/
def IsZero (x : Float) : Prop := ∃ s, x.toModel.unpack = .zero s

theorem IsZero.isNaN {x : Float} (h : IsZero x) : x.isNaN = false := by
  obtain ⟨s, hs⟩ := h
  exact congrArg UnpackedFloat.isNaN hs

theorem IsZero.extent {x : Float} (h : IsZero x) : extent x = 0 := by
  obtain ⟨s, hs⟩ := h
  rw [Binary64.extent, hs, reach]

theorem IsZero.isFinite {x : Float} (h : IsZero x) : x.isFinite = true := by
  obtain ⟨s, hs⟩ := h
  exact congrArg UnpackedFloat.isFinite hs

theorem IsZero.le {x y : Float} (hx : IsZero x) (hy : IsZero y) : x ≤ y :=
  le_iff.2 ⟨hx.isNaN, hy.isNaN, by rw [hx.extent, hy.extent]⟩

theorem isZero_sub_self {x : Float} (h : x.isFinite = true) : IsZero (x - x) := by
  refine ⟨.positive, ?_⟩
  rw [unpack_sub]
  rcases parts_of_isFinite h with ⟨s, hs⟩ | ⟨s, m, e, hm, hs⟩ <;> rw [hs]
  · cases s <;> exact repack_zero .positive
  · simp only [UnpackedFloat.sub, Int.sub_self]
    exact repack_zero .positive

theorem IsZero.mul {x y : Float} (hx : x.isFinite = true) (hy : IsZero y) : IsZero (x * y) := by
  obtain ⟨t, ht⟩ := hy
  rcases parts_of_isFinite hx with ⟨s, hs⟩ | ⟨s, m, e, hm, hs⟩
  · exact ⟨s * t, by rw [unpack_mul, hs, ht]; exact repack_zero _⟩
  · exact ⟨s * t, by rw [unpack_mul, hs, ht]; exact repack_zero _⟩

theorem IsZero.add {x y : Float} (hx : IsZero x) (hy : IsZero y) : IsZero (x + y) := by
  obtain ⟨s, hs⟩ := hx
  obtain ⟨t, ht⟩ := hy
  rw [IsZero, unpack_add, hs, ht]
  cases s <;> cases t <;> exact ⟨_, repack_zero _⟩

theorem IsZero.sub {x y : Float} (hx : IsZero x) (hy : IsZero y) : IsZero (x - y) := by
  obtain ⟨s, hs⟩ := hx
  obtain ⟨t, ht⟩ := hy
  rw [IsZero, unpack_sub, hs, ht]
  cases s <;> cases t <;> exact ⟨_, repack_zero _⟩

theorem IsZero.abs {x : Float} (h : IsZero x) : IsZero x.abs := by
  obtain ⟨s, hs⟩ := h
  refine ⟨.positive, ?_⟩
  change repack x.toModel.unpack.abs = _
  rw [hs]
  exact repack_zero .positive

end Geocast.Binary64
