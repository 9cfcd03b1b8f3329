import Geocast.Proofs.Number.Ranges

/-!
# Power series in fixed point

Sine and cosine are the first two of a family of alternating power series, each of which is one less
a part of the next but one. The fixed-point sums follow that recursion, so by induction on the
number of terms a sum is off by four units for each term, and by what the terms that are left out
can come to, which is halved by every term.

* `tail`: the series, with `tail_step`, `cos_eq_tail` and `sin_eq_tail`.
* `abs_alternating_sub_le`: the error of a fixed-point sum.
-/
namespace Geocast.Trigonometry

/-! ## The series -/

/-- The series `1 - y / (k * (k + 1)) + y ^ 2 / (k * (k + 1) * (k + 2) * (k + 3)) - …`. -/
noncomputable def tail (k : Nat) (y : ℝ) : ℝ :=
  tsum fun j : Nat => (-y) ^ j / (k.ascFactorial (2 * j) : ℝ)

theorem two_pow_le_ascFactorial {k : Nat} (hk : 0 < k) (j : Nat) :
    2 ^ j ≤ k.ascFactorial (2 * j) := by
  induction j with
  | zero => exact le_refl _
  | succ j ih =>
    have hfactors : 2 ≤ (k + (2 * j + 1)) * (k + 2 * j) := by
      calc 2 = 2 * 1 := rfl
        _ ≤ (k + (2 * j + 1)) * (k + 2 * j) := Nat.mul_le_mul (by omega) (by omega)
    have hnext : k.ascFactorial (2 * (j + 1)) =
        (k + (2 * j + 1)) * (k + 2 * j) * k.ascFactorial (2 * j) := by
      rw [Nat.mul_succ, Nat.ascFactorial_succ, Nat.ascFactorial_succ, Nat.mul_assoc]
    rw [hnext, Nat.pow_succ, Nat.mul_comm]
    exact Nat.mul_le_mul hfactors ih

theorem ascFactorial_add_two (k n : Nat) :
    k.ascFactorial (n + 2) = k * (k + 1) * (k + 2).ascFactorial n := by
  rw [Nat.ascFactorial_succ, ← Nat.succ_ascFactorial, Nat.ascFactorial_succ,
    ← Nat.succ_ascFactorial, Nat.mul_assoc]

section Bounded
variable {y : ℝ} (hy : 0 ≤ y) (hy' : y ≤ 1) {k : Nat} (hk : 0 < k)
include hy hy' hk

theorem norm_term_le (j : Nat) :
    ‖(-y) ^ j / (k.ascFactorial (2 * j) : ℝ)‖ ≤ (1 / 2) ^ j := by
  have hpow : (2 : ℝ) ^ j ≤ k.ascFactorial (2 * j) := by
    exact_mod_cast two_pow_le_ascFactorial hk j
  have hbase : |y| ^ j ≤ 1 := pow_le_one₀ (abs_nonneg y) (by rwa [abs_of_nonneg hy])
  rw [norm_div, norm_pow, norm_neg, Real.norm_eq_abs, Real.norm_eq_abs, Nat.abs_cast, div_pow,
    one_pow]
  exact div_le_div₀ zero_le_one hbase (by positivity) hpow

theorem abs_tail_le : |tail k y| ≤ 2 :=
  tsum_of_norm_bounded hasSum_geometric_two (norm_term_le hy hy' hk)

/-- Each series is one less a part of the next but one. -/
theorem tail_step : tail k y = 1 - y / (k * (k + 1)) * tail (k + 2) y := by
  have hsummable : Summable fun j : Nat => (-y) ^ j / (k.ascFactorial (2 * j) : ℝ) :=
    Summable.of_norm_bounded summable_geometric_two (norm_term_le hy hy' hk)
  have hshift : ∀ j : Nat, (-y) ^ (j + 1) / (k.ascFactorial (2 * (j + 1)) : ℝ) =
      -(y / (k * (k + 1))) * ((-y) ^ j / ((k + 2).ascFactorial (2 * j) : ℝ)) := by
    intro j
    rw [Nat.mul_succ, ascFactorial_add_two, pow_succ, mul_comm ((-y) ^ j)]
    push_cast
    rw [mul_div_mul_comm, neg_div]
  rw [tail, hsummable.tsum_eq_zero_add]
  simp only [hshift]
  rw [tsum_mul_left, ← tail, Nat.mul_zero, Nat.ascFactorial_zero, pow_zero, Nat.cast_one, div_one,
    neg_mul, ← sub_eq_add_neg]

end Bounded

theorem cos_eq_tail (x : ℝ) : Real.cos x = tail 1 (x ^ 2) := by
  rw [← (Real.hasSum_cos x).tsum_eq, tail]
  congr 1
  funext j
  rw [Nat.one_ascFactorial, pow_mul, ← mul_pow, neg_one_mul]

theorem sin_eq_tail (x : ℝ) : Real.sin x = x * tail 2 (x ^ 2) := by
  have hfactorial : ∀ j : Nat, Nat.ascFactorial 2 (2 * j) = (2 * j + 1).factorial := by
    intro j
    have h := Nat.factorial_mul_ascFactorial 1 (2 * j)
    rwa [Nat.factorial_one, Nat.one_mul, Nat.add_comm 1 (2 * j)] at h
  rw [← (Real.hasSum_sin x).tsum_eq, tail, ← tsum_mul_left]
  congr 1
  funext j
  rw [hfactorial, pow_succ, pow_mul, neg_pow (x ^ 2)]
  ring

/-! ## Sums in fixed point -/

theorem one_eq : (one : ℝ) = 2 ^ 128 := by
  rw [one_eq_two_pow, Nat.cast_pow, Nat.cast_ofNat, precision]

theorem one_pos : (0 : ℝ) < one := by
  rw [one_eq]
  positivity

/-- A quotient of natural numbers is cut by less than one. -/
theorem natDiv_near (a : Nat) {b : Nat} (hb : 0 < b) :
    ((a / b : Nat) : ℝ) ≤ a / b ∧ (a / b : ℝ) ≤ (a / b : Nat) + 1 := by
  have hpos : (0 : ℝ) < b := by exact_mod_cast hb
  refine ⟨Nat.cast_div_le, ?_⟩
  rw [div_le_iff₀ hpos]
  exact_mod_cast (Nat.lt_mul_of_div_lt (Nat.lt_succ_self (a / b)) hb).le

theorem mul_near (a b : Nat) :
    (mul a b : ℝ) ≤ a * (b / one) ∧ a * (b / one) ≤ (mul a b : ℝ) + 1 := by
  have h := natDiv_near (a * b) (Nat.two_pow_pos precision)
  rw [← one_eq_two_pow, Nat.cast_mul, mul_div_assoc] at h
  rwa [mul, Nat.shiftRight_eq_div_pow, ← one_eq_two_pow]

/-- The next term of a series is cut by less than two. -/
theorem term_near (term square : Nat) {k : Nat} (hk : 0 < k) :
    |((mul term square / (k * (k + 1)) : Nat) : ℝ) - term * (square / one / (k * (k + 1)))| ≤
      2 := by
  have hfactors : 0 < k * (k + 1) := Nat.mul_pos hk (Nat.succ_pos k)
  have hpos : (0 : ℝ) < k * (k + 1) := by exact_mod_cast hfactors
  have hlarge : (1 : ℝ) ≤ k * (k + 1) := by exact_mod_cast hfactors
  obtain ⟨hlow, hhigh⟩ := natDiv_near (mul term square) hfactors
  obtain ⟨hlow', hhigh'⟩ := mul_near term square
  push_cast at hlow hhigh
  have hcut : (term * (square / one) / (k * (k + 1)) : ℝ) ≤
      mul term square / (k * (k + 1)) + 1 := by
    calc (term * (square / one) / (k * (k + 1)) : ℝ) ≤ (mul term square + 1) / (k * (k + 1)) :=
          div_le_div_of_nonneg_right hhigh' hpos.le
      _ = mul term square / (k * (k + 1)) + 1 / (k * (k + 1)) := add_div _ _ _
      _ ≤ mul term square / (k * (k + 1)) + 1 := by
          have := (div_le_one hpos).2 hlarge
          linarith
  have hkept : (mul term square / (k * (k + 1)) : ℝ) ≤ term * (square / one) / (k * (k + 1)) :=
    div_le_div_of_nonneg_right hlow' hpos.le
  rw [← mul_div_assoc, abs_le]
  constructor <;> linarith

theorem two_mul_term_le {square : Nat} (h : square ≤ one) (term : Nat) {k : Nat} (hk : 0 < k) :
    2 * (mul term square / (k * (k + 1))) ≤ term := by
  have hfactors : 2 ≤ k * (k + 1) := Nat.mul_le_mul hk (Nat.succ_le_succ hk)
  have hle : mul term square / (k * (k + 1)) ≤ term / 2 :=
    Nat.div_le_div (mul_le h) hfactors (by decide)
  omega

/-- One term more: the error of the sum of the rest is kept, and that of the next term is added, as
often as the rest is large. -/
theorem step_near {term next c rest sum e : ℝ} (hnext : |next - term * c| ≤ 2) (hrest : |rest| ≤ 2)
    (hsum : |sum - next * rest| ≤ e) : |term - sum - term * (1 - c * rest)| ≤ 4 + e := by
  have hcut : |(next - term * c) * rest| ≤ 2 * 2 := by
    rw [abs_mul]
    exact mul_le_mul hnext hrest (abs_nonneg _) zero_le_two
  have hsplit : term - sum - term * (1 - c * rest) =
      next * rest - sum - (next - term * c) * rest := by ring
  rw [hsplit]
  rw [abs_sub_comm] at hsum
  have := abs_sub (next * rest - sum) ((next - term * c) * rest)
  linarith

/-- A sum in fixed point is off by four for each term that is asked for, and by twice the first term
halved by each. -/
theorem abs_alternating_sub_le {square : Nat} (h : square ≤ one) (fuel term : Nat) {k : Nat}
    (hk : 0 < k) :
    |(alternating square fuel term k : ℝ) - term * tail k (square / one)| ≤
      4 * fuel + 2 * term / 2 ^ fuel := by
  have hy : (0 : ℝ) ≤ square / one := div_nonneg (Nat.cast_nonneg _) one_pos.le
  have hy' : (square / one : ℝ) ≤ 1 := (div_le_one one_pos).2 (by exact_mod_cast h)
  induction fuel generalizing term k with
  | zero =>
    have hrest := mul_le_mul_of_nonneg_left (abs_tail_le hy hy' hk) (Nat.cast_nonneg (α := ℝ) term)
    rw [alternating, Int.cast_zero, abs_sub_comm, sub_zero, abs_mul, Nat.abs_cast]
    norm_num
    linarith
  | succ fuel ih =>
    have hk' : 0 < k + 2 := by omega
    rw [alternating]
    split
    next hterm =>
      rw [hterm, Int.cast_zero, Nat.cast_zero, zero_mul, sub_zero, abs_zero, mul_zero, zero_div,
        add_zero]
      exact mul_nonneg zero_le_four (Nat.cast_nonneg _)
    next hterm =>
      have hnext := term_near term square hk
      have hhalf : (2 * (mul term square / (k * (k + 1)) : Nat) : ℝ) ≤ term := by
        exact_mod_cast two_mul_term_le h term hk
      generalize mul term square / (k * (k + 1)) = next at hnext hhalf ⊢
      have hstep := step_near hnext (abs_tail_le hy hy' hk') (ih next hk')
      have hlast : (2 * next / 2 ^ fuel : ℝ) ≤ 2 * term / 2 ^ (fuel + 1) := by
        rw [pow_succ, ← div_div, div_right_comm, mul_div_cancel_left₀ _ two_ne_zero]
        exact div_le_div_of_nonneg_right hhalf (by positivity)
      rw [← tail_step hy hy' hk] at hstep
      push_cast
      linarith

end Geocast.Trigonometry
