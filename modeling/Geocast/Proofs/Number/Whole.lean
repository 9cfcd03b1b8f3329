import Geocast.Proofs.Number.Fraction
import Geocast.Proofs.Number.Least

/-!
# Whole numbers as doubles

A whole number of at most fifty-three bits is a double. Multiplying by such a number rounds a whole
number of units and dividing by it rounds a fraction of units, so both are told by the places on the
line alone.

* `rounded_of_bits`: what has at most fifty-three bits is not rounded.
* `roundWhole_of_near`: a tie goes to the even neighbour.
* `extent_ofInt`: the place of a whole number.
* `extent_mul_ofNat`, `extent_div_ofNat`: products and quotients with a whole number.
* `roundWhole_roundFraction`: divisors that give a whole number back when they are multiplied again.
-/
namespace Geocast.Binary64
open Float.Model Float.Model.UnpackedFloat

/-! ## What is rounded to where -/

/-- A quotient within half of an even number is rounded to it. -/
theorem roundDiv_eq_of_near {n d r : Nat} (hd : 0 < d) (heven : r % 2 = 0)
    (h : 2 * n ≤ 2 * (r * d) + d) (h' : 2 * (r * d) ≤ 2 * n + d) : roundDiv n d .even = r := by
  have hmod := Nat.div_add_mod n d
  have hlt := Nat.mod_lt n hd
  have hstep : ∀ {a b : Nat}, a < b → a * d + d ≤ b * d := by
    intro a b hab
    calc a * d + d = (a + 1) * d := by ring
      _ ≤ b * d := Nat.mul_le_mul_right d hab
  have hthis : d * (n / d) = n / d * d := Nat.mul_comm _ _
  have hnext : (n / d + 1) * d = n / d * d + d := by ring
  rw [hthis] at hmod
  have hlow : n / d ≤ r := by
    by_contra hbelow
    have := hstep (Nat.not_le.1 hbelow)
    omega
  have hhigh : r ≤ n / d + 1 := by
    by_contra habove
    have := hstep (Nat.not_le.1 habove)
    omega
  simp only [roundDiv]
  rcases Nat.lt_or_eq_of_le hlow with hup | hdown
  · obtain rfl : r = n / d + 1 := by omega
    rw [if_neg (by omega)]
    split
    · rfl
    · omega
  · subst hdown
    split
    · rfl
    · rw [if_neg (by omega)]
      omega

theorem roundDiv_mul_right (r : Nat) {d : Nat} (hd : 0 < d) : roundDiv (r * d) d .even = r := by
  rw [roundDiv, Nat.mul_mod_left, Nat.mul_div_left r hd]
  exact if_pos hd

/-- What is within half of the bits cut off from a number with one more bit clear is rounded to
it. -/
theorem roundWhole_of_near {n v e : Nat} (he : excess n 1 = e) (hv : 2 ^ (e + 1) ∣ v)
    (h : 2 * n ≤ 2 * v + 2 ^ e) (h' : 2 * v ≤ 2 * n + 2 ^ e) : roundWhole n = v := by
  obtain ⟨r, rfl⟩ := hv
  have hsplit : 2 ^ (e + 1) * r = 2 * r * 2 ^ e := by rw [Nat.pow_succ]; ring
  rw [hsplit] at h h' ⊢
  rw [roundWhole_eq, roundFraction, he, Nat.one_mul,
    roundDiv_eq_of_near (Nat.two_pow_pos e) (Nat.mul_mod_right 2 r) h h']

theorem log2_lt_of_lt {m k : Nat} (hk : 0 < k) (h : m < 2 ^ k) : m.log2 < k := by
  by_cases hm : m = 0
  · rw [hm, Nat.log2_zero]
    exact hk
  · exact (Nat.log2_lt hm).2 h

theorem roundWhole_of_bits {m : Nat} (hm : m < 2 ^ 53) (k : Nat) :
    roundWhole (m * 2 ^ k) = m * 2 ^ k := by
  by_cases h0 : m = 0
  · rw [h0, Nat.zero_mul, roundWhole_zero]
  · have hlog := log2_lt_of_lt (by decide) hm
    obtain ⟨e, he⟩ : ∃ e, excess (m * 2 ^ k) 1 = e := ⟨_, rfl⟩
    have hle : e ≤ k := by
      rw [← he, excess, Nat.div_one, log2_mul_two_pow h0]
      omega
    have hsplit : m * 2 ^ k = m * 2 ^ (k - e) * 2 ^ e := by
      rw [Nat.mul_assoc, ← Nat.pow_add, Nat.sub_add_cancel hle]
    rw [roundWhole_eq, roundFraction, he, Nat.one_mul, hsplit,
      roundDiv_mul_right _ (Nat.two_pow_pos e)]

theorem natAbs_mul_two_pow (m : Int) (k : Nat) : (m * 2 ^ k).natAbs = m.natAbs * 2 ^ k := by
  rw [Int.natAbs_mul, Int.natAbs_pow]
  rfl

theorem lt_limit_of_bits {m k : Nat} (hm : m < 2 ^ 53) (hk : k ≤ topScale) : m * 2 ^ k < limit :=
  Nat.mul_lt_mul_of_lt_of_le hm (Nat.pow_le_pow_right (by decide) hk) (Nat.two_pow_pos _)

/-- What has at most fifty-three bits is not rounded. -/
theorem rounded_of_bits {m : Int} (hm : m.natAbs < 2 ^ 53) {k : Nat} (hk : k ≤ topScale) :
    rounded (m * 2 ^ k) = m * 2 ^ k := by
  have habs := natAbs_mul_two_pow m k
  have hsize : ((m * 2 ^ k).natAbs : Int) = m.natAbs * 2 ^ k := by
    rw [habs]
    push_cast
    rfl
  rw [rounded, oddly]
  rw [habs, roundWhole_of_bits hm, Nat.min_eq_left (lt_limit_of_bits hm hk).le, ← habs]
  split <;> omega

/-- What is within half a unit of a whole number is rounded to less than a unit from it. -/
theorem rounded_near {i z : Int} {k : Nat} (hi : i.natAbs ≤ 2 ^ 31) (hk : k ≤ topScale)
    (h : 2 * z < 2 * (i * 2 ^ (k + 1)) + 2 ^ (k + 1))
    (h' : 2 * (i * 2 ^ (k + 1)) < 2 * z + 2 ^ (k + 1)) :
    (i - 1) * 2 ^ (k + 1) ≤ rounded z ∧ rounded z < (i + 1) * 2 ^ (k + 1) := by
  have hdouble : (2 : Int) ^ (k + 1) = 2 * 2 ^ k := by rw [pow_succ, mul_comm]
  have hpos : (0 : Int) < 2 ^ k := by positivity
  have hlow := rounded_of_bits (m := 2 * i - 1) (by omega) hk
  have hhigh := rounded_of_bits (m := 2 * i + 1) (by omega) hk
  rw [hdouble] at h h' ⊢
  constructor
  · have := rounded_mono (show (2 * i - 1) * 2 ^ k ≤ z by linarith)
    linarith
  · have := rounded_mono (show z ≤ (2 * i + 1) * 2 ^ k by linarith)
    linarith

/-! ## Whole numbers -/

theorem isFinite_of_extent {x : Float} (hx : x.isNaN = false) {m : Int} (hm : m.natAbs < 2 ^ 53)
    {k : Nat} (hk : k ≤ topScale) (h : extent x = m * 2 ^ k) : x.isFinite = true := by
  refine isFinite_iff.2 ⟨hx, ?_⟩
  rw [h, natAbs_mul_two_pow]
  exact lt_limit_of_bits hm hk

/-- A positive double that stands at a whole number of units has parts with that magnitude. -/
theorem parts_of_extent {x : Float} {n : Nat} (hx : x.isFinite = true) (hn : 0 < n)
    (h : extent x = n) :
    ∃ m e hm, x.toModel.unpack = .finite .positive m e hm ∧ magnitude m e = n := by
  rw [extent] at h
  rcases parts_of_isFinite hx with ⟨s, hs⟩ | ⟨s, m, e, hm, hs⟩
  · rw [hs, reach] at h
    omega
  · rw [hs] at h
    cases s with
    | positive => exact ⟨m, e, hm, hs, Int.ofNat_inj.1 h⟩
    | negative =>
      change -(magnitude m e : Int) = n at h
      omega

theorem natCast_mul_two_pow (g k : Nat) : ((g * 2 ^ k : Nat) : Int) = g * 2 ^ k := by
  rw [Nat.cast_mul, Nat.cast_pow, Nat.cast_ofNat]

theorem extent_mul_of_extent {x y : Float} {g : Nat} (hx : x.isFinite = true)
    (hy : y.isFinite = true) (hg : 0 < g) (h : extent y = (g * 2 ^ 1074 : Nat)) :
    extent (x * y) = rounded (extent x * g) := by
  obtain ⟨m, e, hm, hparts, hunits⟩ := parts_of_extent hy (by positivity) h
  have hround : roundProduct ((extent x).natAbs * (g * 2 ^ 1074)) =
      roundWhole (extent x * g).natAbs := by
    rw [roundWhole, Int.natAbs_mul, Int.natAbs_natCast, Nat.mul_assoc]
  have hsign : extent x * g < 0 ↔ extent x < 0 := by
    rw [← not_le, ← not_le, mul_nonneg_iff_of_pos_right (by exact_mod_cast hg)]
  rw [extent_mul (isNaN_of_isFinite hx) hparts, hunits, oddly, stretch,
    if_pos (isFinite_iff.1 hx).2, hround, rounded, oddly]
  simp only [hsign]

theorem extent_div_of_extent {x y : Float} {g : Nat} (hx : x.isFinite = true)
    (hy : y.isFinite = true) (hg : 0 < g) (h : extent y = (g * 2 ^ 1074 : Nat)) :
    extent (x / y) = oddly (fun n => Min.min (roundFraction n g) limit) (extent x) := by
  obtain ⟨m, e, hm, hparts, hunits⟩ := parts_of_extent hy (by positivity) h
  have hscale : shrink (g * 2 ^ 1074) = fun n => Min.min (roundFraction n g) limit := by
    funext n
    rw [shrink, roundFraction_mul n g (by positivity)]
  rw [extent_div hx hparts, hunits, hscale]

theorem isNaN_ofNat (n : Nat) : (Float.ofNat n).isNaN = false := by
  change (Float.ofNat n).toModel.unpack.isNaN = false
  rw [isNaN_eq, signOf_unpack_ofNat]
  rfl

theorem extent_ofNat {n : Nat} (h : n < 2 ^ 53) : extent (Float.ofNat n) = n * 2 ^ 1074 := by
  have hsmall : n < 2 ^ 64 := by omega
  have hbits : (n : Int).natAbs < 2 ^ 53 := by rwa [Int.natAbs_natCast]
  have hword : extent n.toUInt64.toFloat = n * 2 ^ 1074 :=
    (extent_toFloat hsmall).trans (rounded_of_bits hbits (by decide))
  have hfinite : n.toUInt64.toFloat.isFinite = true :=
    isFinite_of_extent (isNaN_normalize _ _) hbits (by decide) hword
  have hone : extent (Float.ofBits 0x3FF0000000000000) = (1 * 2 ^ 1074 : Nat) := by
    rw [natCast_mul_two_pow, Nat.cast_one, Int.one_mul]
    exact extent_one
  change extent (Float.ofScientific n false 0) = _
  rw [Float.ofScientific]
  split
  · change extent (n.toUInt64.toFloat * Float.ofBits 0x3FF0000000000000) = _
    rw [extent_mul_of_extent hfinite rfl Nat.one_pos hone, Nat.cast_one, Int.mul_one,
      rounded_extent hfinite, hword]
  · omega

theorem isFinite_ofNat {n : Nat} (h : n < 2 ^ 53) : (Float.ofNat n).isFinite = true :=
  isFinite_of_extent (isNaN_ofNat n) (by rwa [Int.natAbs_natCast]) (by decide) (extent_ofNat h)

theorem extent_ofInt {i : Int} (h : i.natAbs < 2 ^ 53) : extent (Float.ofInt i) = i * 2 ^ 1074 := by
  cases i with
  | ofNat n => exact extent_ofNat h
  | negSucc n =>
    change extent (-Float.ofNat (n + 1)) = _
    have hbits : n + 1 < 2 ^ 53 := h
    rw [extent_neg, extent_ofNat hbits, ← Int.neg_mul]
    rfl

theorem isNaN_ofInt (i : Int) : (Float.ofInt i).isNaN = false := by
  cases i with
  | ofNat n => exact isNaN_ofNat n
  | negSucc n => exact (isNaN_neg _).trans (isNaN_ofNat (n + 1))

theorem isFinite_ofInt {i : Int} (h : i.natAbs < 2 ^ 53) : (Float.ofInt i).isFinite = true :=
  isFinite_of_extent (isNaN_ofInt i) h (by decide) (extent_ofInt h)

/-! ## Signs of whole numbers -/

theorem exists_apply (i : Int) : ∃ (s : Sign) (n : Nat), i = s.apply n := by
  rcases Int.natAbs_eq i with h | h
  · exact ⟨.positive, i.natAbs, h⟩
  · exact ⟨.negative, i.natAbs, h⟩

theorem apply_mul (s : Sign) (m n : Nat) : s.apply (m : Int) * n = s.apply (m * n : Nat) := by
  cases s <;> simp [Sign.apply]

theorem apply_mul_two_pow (s : Sign) (m k : Nat) :
    s.apply (m : Int) * 2 ^ k = s.apply (m * 2 ^ k : Nat) := by
  rw [← apply_mul, Nat.cast_pow, Nat.cast_ofNat]

/-! ## Products and quotients with whole numbers -/

theorem extent_ofNat_eq {g : Nat} (h : g < 2 ^ 53) :
    extent (Float.ofNat g) = (g * 2 ^ 1074 : Nat) := by
  rw [extent_ofNat h, natCast_mul_two_pow]

theorem extent_one_eq : extent 1.0 = (1 * 2 ^ 1074 : Nat) := extent_ofNat_eq (g := 1) (by decide)

theorem extent_two : extent 2.0 = (2 * 2 ^ 1074 : Nat) := extent_ofNat_eq (g := 2) (by decide)

section Factor
variable {x : Float} {g : Nat} (hx : x.isFinite = true) (hg : 0 < g) (hbits : g < 2 ^ 53)
include hx hg hbits

theorem extent_mul_ofNat : extent (x * Float.ofNat g) = rounded (extent x * g) :=
  extent_mul_of_extent hx (isFinite_ofNat hbits) hg (extent_ofNat_eq hbits)

theorem extent_div_ofNat : extent (x / Float.ofNat g) =
    oddly (fun n => Min.min (roundFraction n g) limit) (extent x) :=
  extent_div_of_extent hx (isFinite_ofNat hbits) hg (extent_ofNat_eq hbits)

theorem isNaN_mul_ofNat : (x * Float.ofNat g).isNaN = false := by
  obtain ⟨m, e, hm, hparts, -⟩ :=
    parts_of_extent (isFinite_ofNat hbits) (by positivity) (extent_ofNat_eq hbits)
  exact (isNaN_mul hparts).trans (isNaN_of_isFinite hx)

theorem isNaN_div_ofNat : (x / Float.ofNat g).isNaN = false := by
  obtain ⟨m, e, hm, hparts, -⟩ :=
    parts_of_extent (isFinite_ofNat hbits) (by positivity) (extent_ofNat_eq hbits)
  exact isNaN_div hx hparts

end Factor

/-! ## Quotients that are multiplied again -/

/-- A whole number divided by another and multiplied again is within half a unit of itself. -/
theorem roundFraction_near_whole {n p g : Nat} (hn : n ≤ 2 ^ 31) (hp : 85 ≤ p) (hg : 0 < g)
    (hg' : g < 2 ^ 32) :
    2 * (roundFraction (n * 2 ^ p) g * g) < 2 * (n * 2 ^ p) + 2 ^ p ∧
      2 * (n * 2 ^ p) < 2 * (roundFraction (n * 2 ^ p) g * g) + 2 ^ p := by
  have hlarge : 2 ^ 85 ≤ 2 ^ p := Nat.pow_le_pow_right (by decide) hp
  have hsize : n * 2 ^ p ≤ 2 ^ 31 * 2 ^ p := Nat.mul_le_mul_right _ hn
  obtain ⟨hover, hunder⟩ := roundFraction_error (n * 2 ^ p) hg
  omega

/-- Such a quotient has all fifty-three bits. -/
theorem two_pow_le_quotient {n p g : Nat} (hn : 0 < n) (hp : 85 ≤ p) (hg : 0 < g)
    (hg' : g < 2 ^ 32) :
    2 ^ 52 ≤ roundDiv (n * 2 ^ p) (g * 2 ^ excess (n * 2 ^ p) g) .even := by
  have hlarge : 2 ^ 85 ≤ 2 ^ p := Nat.pow_le_pow_right (by decide) hp
  have hscaled : 2 ^ p ≤ n * 2 ^ p := Nat.le_mul_of_pos_left _ hn
  have hquotient : 2 ^ 53 ≤ n * 2 ^ p / g := by
    rw [Nat.le_div_iff_mul_le hg]
    omega
  have hlog := (Nat.le_log2 (by omega)).2 hquotient
  have hbits := (two_pow_excess_le (n * 2 ^ p) hg).resolve_left (by rw [excess]; omega)
  rw [← Nat.le_div_iff_mul_le (Nat.mul_pos hg (Nat.two_pow_pos _))] at hbits
  exact hbits.trans (roundDiv_bounds _ _).1

/-- Where the divisor is odd, but for the bits that the number has clear too, the error of a
quotient is not half of the divisor, but less. -/
theorem roundDiv_near_odd {v h c k : Nat} (hodd : h % 2 = 1) (hhigh : h ≤ 2 ^ c + 1) :
    let m := roundDiv (v * 2 ^ k) (h * 2 ^ k) .even
    2 * (m * h) ≤ 2 * v + 2 ^ c ∧ 2 * v ≤ 2 * (m * h) + 2 ^ c := by
  have hnear := roundDiv_near v (d := h) (by omega)
  rw [roundDiv_mul v h (Nat.two_pow_pos k)]
  omega

theorem le_excess_mul {m h c k : Nat} (hm : 2 ^ 52 ≤ m) (hh : 2 ^ c ≤ h) :
    k + c ≤ excess (m * h * 2 ^ k) 1 := by
  have hle : 2 ^ (52 + c + k) ≤ m * h * 2 ^ k := by
    rw [Nat.pow_add _ _ k, Nat.pow_add]
    exact Nat.mul_le_mul_right _ (Nat.mul_le_mul hm hh)
  have hne : m * h * 2 ^ k ≠ 0 := Nat.ne_of_gt (Nat.lt_of_lt_of_le (Nat.two_pow_pos _) hle)
  have := (Nat.le_log2 hne).2 hle
  rw [excess, Nat.div_one]
  omega

theorem excess_lt {n p v : Nat} (hn : n ≤ 2 ^ 31) (hp : 85 ≤ p)
    (hv : 2 * v < 2 * (n * 2 ^ p) + 2 ^ p) : excess v 1 + 1 ≤ p := by
  have hlt : v < 2 ^ (32 + p) := by
    have hsize : n * 2 ^ p ≤ 2 ^ 31 * 2 ^ p := Nat.mul_le_mul_right _ hn
    rw [Nat.pow_add 2 32]
    omega
  have := log2_lt_of_lt (by omega) hlt
  rw [excess, Nat.div_one]
  omega

/-- Dividing by a power of two, or by the sum of two, and multiplying again gives the whole number
back: the error is at most half of the last bit of the product, and a tie is to an even number. -/
theorem roundWhole_roundFraction {n p h b c : Nat} (hn : n ≤ 2 ^ 31) (hp : 85 ≤ p)
    (hodd : h % 2 = 1) (hlow : 2 ^ c ≤ h) (hhigh : h ≤ 2 ^ c + 1) (hg : 2 ^ b * h < 2 ^ 32) :
    roundWhole (roundFraction (n * 2 ^ p) (2 ^ b * h) * (2 ^ b * h)) = n * 2 ^ p := by
  rcases Nat.eq_zero_or_pos n with rfl | hpos
  · rw [Nat.zero_mul, roundFraction_zero, Nat.zero_mul, roundWhole_zero]
  have hg0 : 0 < 2 ^ b * h := Nat.mul_pos (Nat.two_pow_pos b) (by omega)
  obtain ⟨hnear, -⟩ := roundFraction_near_whole hn hp hg0 hg
  have hfull := two_pow_le_quotient hpos hp hg0 hg
  rw [roundFraction] at hnear ⊢
  generalize excess (n * 2 ^ p) (2 ^ b * h) = s at hnear hfull ⊢
  have hden : 2 ^ b * h * 2 ^ s = h * 2 ^ (s + b) := by rw [Nat.pow_add]; ring
  have hproduct : ∀ m, m * 2 ^ s * (2 ^ b * h) = m * h * 2 ^ (s + b) := by
    intro m
    rw [Nat.pow_add]
    ring
  rw [hden] at hfull
  rw [hden, hproduct] at hnear ⊢
  -- The product has all bits too, and those cut off from it are clear in the whole number.
  obtain ⟨m, hm⟩ : ∃ m, m = roundDiv (n * 2 ^ p) (h * 2 ^ (s + b)) .even := ⟨_, rfl⟩
  rw [← hm] at hnear hfull ⊢
  obtain ⟨e, he⟩ : ∃ e, excess (m * h * 2 ^ (s + b)) 1 = e := ⟨_, rfl⟩
  have hkept := he ▸ le_excess_mul (k := s + b) hfull hlow
  have hclear := he ▸ excess_lt hn hp hnear
  obtain ⟨v, hv⟩ : ∃ v, n * 2 ^ p = v * 2 ^ (s + b) := by
    refine ⟨n * 2 ^ (p - (s + b)), ?_⟩
    rw [Nat.mul_assoc, ← Nat.pow_add, Nat.sub_add_cancel (by omega)]
  have herror := roundDiv_near_odd (v := v) (k := s + b) hodd hhigh
  rw [← hv, ← hm] at herror
  have hscale : ∀ {x y : Nat}, 2 * x ≤ 2 * y + 2 ^ c →
      2 * (x * 2 ^ (s + b)) ≤ 2 * (y * 2 ^ (s + b)) + 2 ^ e := by
    intro x y hxy
    calc 2 * (x * 2 ^ (s + b)) = 2 * x * 2 ^ (s + b) := by ring
      _ ≤ (2 * y + 2 ^ c) * 2 ^ (s + b) := Nat.mul_le_mul_right _ hxy
      _ = 2 * (y * 2 ^ (s + b)) + 2 ^ (s + b + c) := by rw [Nat.pow_add _ (s + b)]; ring
      _ ≤ 2 * (y * 2 ^ (s + b)) + 2 ^ e :=
          Nat.add_le_add_left (Nat.pow_le_pow_right (by decide) hkept) _
  refine roundWhole_of_near he ((Nat.pow_dvd_pow 2 hclear).mul_left n) ?_ ?_
  · rw [hv]
    exact hscale herror.1
  · rw [hv]
    exact hscale herror.2

theorem roundFraction_lt_limit {n p g : Nat} (hn : n ≤ 2 ^ 31) (hp : 85 ≤ p) (hp' : p ≤ topScale)
    (hg : 0 < g) (hg' : g < 2 ^ 32) : roundFraction (n * 2 ^ p) g < limit := by
  have hscale : 2 ^ p ≤ 2 ^ topScale := Nat.pow_le_pow_right (by decide) hp'
  have hpos : 0 < 2 ^ p := Nat.two_pow_pos p
  have hsize : n * 2 ^ p ≤ 2 ^ 31 * 2 ^ p := Nat.mul_le_mul_right _ hn
  have hnear := (roundFraction_near_whole hn hp hg hg').1
  have hself : roundFraction (n * 2 ^ p) g ≤ roundFraction (n * 2 ^ p) g * g :=
    Nat.le_mul_of_pos_right _ hg
  rw [limit]
  generalize 2 ^ topScale = t at hscale
  omega

end Geocast.Binary64
