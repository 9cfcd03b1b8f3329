import Geocast.Proofs.Number.Ranges

/-!
# Halves, roots and what is left of one

* `isFinite_half`, `natAbs_half_le`: half of a double.
* `Plus.add`, `Plus.sqrt`, `isNaN_sqrt`, `isNaN_sqrt_of_neg`: when a sum or a root has no minus
  sign, and when a root is no number.
* `one_sub_spec`: one less a double is below zero exactly when the double is more than one.
-/
namespace Geocast.Binary64
open Float.Model Float.Model.UnpackedFloat

/-! ## Halves and roots -/

theorem natAbs_oddly (f : Nat → Nat) (z : Int) : (oddly f z).natAbs = f z.natAbs := by
  rw [oddly]
  split <;> omega

theorem roundFraction_two_eq {k : Nat} (hk : k + 1 = 1074) (n : Nat) :
    roundFraction n 2 = roundProduct (n * 2 ^ k) := by
  rw [roundProduct_eq, ← hk, Nat.pow_succ', roundFraction_mul n 2 (Nat.two_pow_pos k)]

theorem roundFraction_two_mono {m n : Nat} (h : m ≤ n) : roundFraction m 2 ≤ roundFraction n 2 := by
  have hk : 1073 + 1 = 1074 := rfl
  rw [roundFraction_two_eq hk, roundFraction_two_eq hk]
  exact roundProduct_mono (Nat.mul_le_mul_right _ h)

theorem roundFraction_two_le (n : Nat) : roundFraction n 2 ≤ n := by
  have herror := (roundFraction_error n (d := 2) (by decide)).1
  rcases Nat.eq_zero_or_pos n with rfl | hn
  · rw [roundFraction_zero]
  · omega

theorem natAbs_extent_half {x : Float} (h : x.isFinite = true) :
    (extent (x / 2.0)).natAbs = Min.min (roundFraction (extent x).natAbs 2) limit := by
  have htwo : (2.0 : Float).isFinite = true := rfl
  rw [extent_div_of_extent h htwo (by decide) extent_two, natAbs_oddly]

theorem isFinite_half {x : Float} (h : x.isFinite = true) : (x / 2.0).isFinite = true := by
  obtain ⟨m, e, hm, hparts⟩ : ∃ m e hm, (2.0 : Float).toModel.unpack = .finite .positive m e hm :=
    ⟨_, _, _, rfl⟩
  refine isFinite_iff.2 ⟨isNaN_div h hparts, ?_⟩
  rw [natAbs_extent_half h]
  exact (Nat.min_le_left _ _).trans_lt
    ((roundFraction_two_le _).trans_lt (isFinite_iff.1 h).2)

theorem natAbs_half_le {x y : Float} (hx : x.isFinite = true) (hy : y.isFinite = true)
    (h : (extent x).natAbs ≤ (extent y).natAbs) :
    (extent (x / 2.0)).natAbs ≤ (extent (y / 2.0)).natAbs := by
  have := roundFraction_two_mono h
  rw [natAbs_extent_half hx, natAbs_extent_half hy]
  omega

theorem unpack_sqrt (x : Float) :
    x.sqrt.toModel.unpack = repack (UnpackedFloat.sqrt Format.binary64 x.toModel.unpack) := rfl

theorem Plus.sqrt {x : Float} (h : Plus x) : Plus x.sqrt := by
  rw [Plus, unpack_sqrt, signOf_repack]
  rcases positive_cases h with h | h | h | ⟨m, e, hm, h⟩ <;> rw [h]
  · exact none_ne_negative
  · exact positive_ne_negative
  · exact positive_ne_negative
  · rw [UnpackedFloat.sqrt, signOf_roundWithAccuracy]
    exact positive_ne_negative

theorem isNaN_sqrt {x : Float} (h : Plus x) (hx : x.isNaN = false) : x.sqrt.isNaN = false := by
  change x.sqrt.toModel.unpack.isNaN = false
  rw [isNaN_eq, unpack_sqrt, signOf_repack]
  rcases positive_cases h with h | h | h | ⟨m, e, hm, h⟩
  · rw [show x.isNaN = true from congrArg UnpackedFloat.isNaN h] at hx
    cases hx
  · rw [h]
    rfl
  · rw [h]
    rfl
  · rw [h, UnpackedFloat.sqrt, signOf_roundWithAccuracy]
    rfl

theorem isNaN_sqrt_of_neg {x : Float} (h : extent x < 0) : x.sqrt.isNaN = true := by
  change x.sqrt.toModel.unpack.isNaN = true
  rw [isNaN_eq, unpack_sqrt, signOf_repack]
  rw [extent] at h
  cases hx : x.toModel.unpack with
  | notANumber => rw [hx] at h; exact absurd h (Int.lt_irrefl 0)
  | infinity s =>
    cases s with
    | negative => rfl
    | positive => rw [hx] at h; exact absurd h (Int.not_lt.2 (Int.natCast_nonneg limit))
  | zero s => rw [hx] at h; exact absurd h (Int.lt_irrefl 0)
  | finite s m e hm =>
    cases s with
    | negative => rfl
    | positive => rw [hx] at h; exact absurd h (Int.not_lt.2 (Int.natCast_nonneg (magnitude m e)))

/-- What is left of one is below zero exactly when more than one is taken away, and has no minus
sign otherwise. -/
theorem one_sub_spec {a : Float} (ha : a.isFinite = true) :
    (1.0 < a → extent (1.0 - a) < 0) ∧ (¬ 1.0 < a → Plus (1.0 - a)) := by
  have hone : (1.0 : Float).isFinite = true := rfl
  have hextent := extent_sub hone ha
  have hless : (1.0 < a) ↔ extent 1.0 < extent a :=
    lt_iff.trans ⟨fun h => h.2.2, fun h => ⟨rfl, isNaN_of_isFinite ha, h⟩⟩
  have hunit : ∀ {m : Int}, m.natAbs < 2 ^ 53 → rounded m = m := by
    intro m hm
    have := rounded_of_bits hm (Nat.zero_le topScale)
    rwa [pow_zero, mul_one] at this
  have hminus := hunit (m := -1) (by decide)
  have hplus := hunit (m := 1) (by decide)
  rw [hless]
  constructor
  · intro h
    have := rounded_mono (show extent 1.0 - extent a ≤ -1 by omega)
    omega
  · intro h
    rcases Int.lt_or_eq_of_le (Int.not_lt.1 h) with hlt | heq
    · have := rounded_mono (show 1 ≤ extent 1.0 - extent a by omega)
      intro hneg
      have hle : extent (1.0 - a) ≤ 0 := reach_le_zero hneg
      omega
    · have hbeq : (a == 1.0) = true := beq_iff.2 ⟨isNaN_of_isFinite ha, rfl, heq⟩
      have hunpack : a.toModel.unpack = (1.0 : Float).toModel.unpack := by
        rcases alike_of_beq ha hone hbeq with h | ⟨-, s, hs⟩
        · exact h
        · cases hs
      have hzero : signOf (1.0 - 1.0 : Float).toModel.unpack = some .positive := rfl
      rw [Plus, unpack_sub, hunpack, ← unpack_sub, hzero]
      exact positive_ne_negative

theorem signOf_normalize_of_nonneg {n : Int} (h : 0 ≤ n) (e : Int) :
    signOf (UnpackedFloat.normalize Format.binary64 n e .positive) ≠ some .negative := by
  unfold UnpackedFloat.normalize UnpackedFloat.round
  rcases Int.lt_or_eq_of_le h with hpos | rfl
  · rw [Int.compare_eq_gt.2 hpos]
    dsimp only
    rw [signOf_roundWithAccuracy]
    exact positive_ne_negative
  · rw [Std.compare_self]
    exact positive_ne_negative

theorem Plus.add {x y : Float} (hx : Plus x) (hy : Plus y) : Plus (x + y) := by
  rw [Plus, unpack_add, signOf_repack]
  rcases positive_cases hx with h | h | h | ⟨m, e, hm, h⟩ <;>
    rcases positive_cases hy with h' | h' | h' | ⟨n, d, hn, h'⟩ <;> rw [h, h']
  case inr.inr.inr.inr.inr.inr =>
    rw [UnpackedFloat.add]
    exact signOf_normalize_of_nonneg
      (Int.add_nonneg (Int.natCast_nonneg _) (Int.natCast_nonneg _)) _
  all_goals first | exact none_ne_negative | exact positive_ne_negative

end Geocast.Binary64
