import Geocast.Grid.Lemmas
import Geocast.Proofs.Number.Product

/-!
# Cells keep the order of angles

A cell's place is the whole part of an angle multiplied by the number of cells per degree. The
product is rounded and the whole part is cut off at both ends, yet an angle that is not smaller
never falls into an earlier cell: no location of a box is in a cell that the box does not touch.

* `place_eq`: the place of a number is its whole part downwards, as far as it fits.
* `index_mono`: an angle that is not smaller has its place no earlier, for any number of cells.
* `cellOf_mem_cellsFor`: the cell of a location is among the cells of every box around it.
-/
namespace Geocast.Grid
open Binary64 Float.Model Float.Model.UnpackedFloat

/-! ## Places -/

theorem shiftRight_mono {a b : Int} (h : a ≤ b) (k : Nat) : a.shiftRight k ≤ b.shiftRight k := by
  change a >>> k ≤ b >>> k
  rw [Int.shiftRight_eq_div_pow, Int.shiftRight_eq_div_pow]
  exact Int.ediv_le_ediv (by exact_mod_cast Nat.two_pow_pos k) h

/-- An infinity is further out than the last cell. -/
theorem mul_two_pow_le_limit {k : Nat} (h : k ≤ topScale) : (2147483648 * 2 ^ k : Int) ≤ limit := by
  have hpow : 2 ^ k ≤ 2 ^ topScale := Nat.pow_le_pow_right (by decide) h
  have hle : 2147483648 * 2 ^ k ≤ limit := Nat.mul_le_mul (by decide) hpow
  exact_mod_cast hle

theorem le_shiftRight_iff {a b : Int} {k : Nat} : a ≤ b.shiftRight k ↔ a * 2 ^ k ≤ b := by
  change a ≤ b >>> k ↔ _
  have hpos : (0 : Int) < 2 ^ k := by positivity
  rw [Int.shiftRight_eq_div_pow, Nat.cast_pow, Nat.cast_ofNat, Int.le_ediv_iff_mul_le hpos]

theorem unpack_zero : (0.0 : Float).toModel.unpack = .zero .positive := rfl

theorem lt_zero_iff {x : Float} {s : Sign} (h : x.toModel.unpack = .infinity s) :
    x < 0.0 ↔ s = .negative := by
  have hdef : x < 0.0 ↔ x.toModel.unpack.lt (0.0 : Float).toModel.unpack = true :=
    decide_eq_true_iff
  rw [hdef, unpack_zero, h]
  cases s
  · exact iff_of_true rfl rfl
  · exact iff_of_false Bool.false_ne_true Sign.noConfusion

theorem place_nan {x : Float} (h : x.isNaN = true) : place x = 0 := by
  rw [place, if_pos h]

theorem place_infinity {x : Float} {s : Sign} (h : x.toModel.unpack = .infinity s) :
    place x = s.rec minIndex maxIndex := by
  have hnan : x.isNaN = false := congrArg UnpackedFloat.isNaN h
  have hinf : x.isInf = true := congrArg UnpackedFloat.isInf h
  rw [place, if_neg (by rw [hnan]; decide), if_pos hinf]
  cases s with
  | negative => rw [if_pos ((lt_zero_iff h).2 rfl)]
  | positive => rw [if_neg (by rw [lt_zero_iff h]; exact Sign.noConfusion)]

theorem isNaN_isInf_of_isFinite {u : UnpackedFloat} (h : u.isFinite = true) :
    u.isNaN = false ∧ u.isInf = false := by
  cases u with
  | notANumber => cases h
  | infinity s => cases h
  | zero s => exact ⟨rfl, rfl⟩
  | finite s m e hm => exact ⟨rfl, rfl⟩

theorem place_finite {x : Float} (h : x.isFinite = true) :
    place x = max minIndex (min maxIndex ((extent x).shiftRight 1074)) := by
  have hnan : x.isNaN = false := (isNaN_isInf_of_isFinite h).1
  have hinf : x.isInf = false := (isNaN_isInf_of_isFinite h).2
  rw [place, if_neg (by rw [hnan]; decide), if_neg (by rw [hinf]; decide), floor,
    extent_eq_units h]

theorem place_eq {x : Float} (h : x.isNaN = false) :
    place x = max minIndex (min maxIndex ((extent x).shiftRight 1074)) := by
  have hn : x.toModel.unpack.isNaN = false := h
  have hmin : minIndex = -2147483648 := rfl
  have hmax : maxIndex = 2147483647 := rfl
  have hlim : (2147483648 * 2 ^ 1074 : Int) ≤ limit := mul_two_pow_le_limit (by decide)
  cases hux : x.toModel.unpack with
  | notANumber => rw [hux] at hn; cases hn
  | infinity s =>
    rw [place_infinity hux, extent, hux]
    cases s with
    | negative =>
      have hfar : ¬ -2147483647 ≤ (-limit : Int).shiftRight 1074 := by
        rw [le_shiftRight_iff]
        have : (0 : Int) < 2 ^ 1074 := by positivity
        generalize (2 ^ 1074 : Int) = p at *
        omega
      change minIndex = max minIndex (min maxIndex ((-limit : Int).shiftRight 1074))
      omega
    | positive =>
      have hfar : maxIndex ≤ (limit : Int).shiftRight 1074 := by
        rw [le_shiftRight_iff, hmax]
        have : (0 : Int) < 2 ^ 1074 := by positivity
        generalize (2 ^ 1074 : Int) = p at *
        omega
      change maxIndex = max minIndex (min maxIndex ((limit : Int).shiftRight 1074))
      omega
  | zero s => exact place_finite (congrArg UnpackedFloat.isFinite hux)
  | finite s m e hm => exact place_finite (congrArg UnpackedFloat.isFinite hux)

theorem place_mono {x y : Float} (hx : x.isNaN = false) (hy : y.isNaN = false)
    (h : extent x ≤ extent y) : place x ≤ place y := by
  have hshift := shiftRight_mono h 1074
  rw [place_eq hx, place_eq hy]
  omega

theorem place_mul_zero {x y : Float} (h : y.toModel.unpack = .zero .positive) :
    place (x * y) = 0 := by
  have hmul := unpack_mul x y
  rw [h] at hmul
  have hnan : ∀ u, (x * y).toModel.unpack = u → u = .notANumber → place (x * y) = 0 := by
    rintro _ h rfl
    exact place_nan (congrArg UnpackedFloat.isNaN h)
  have hzero : ∀ s, (x * y).toModel.unpack = .zero s → place (x * y) = 0 := by
    intro s h
    have hfin : (x * y).isFinite = true := congrArg UnpackedFloat.isFinite h
    rw [place_finite hfin, extent, h, reach]
    decide
  cases hux : x.toModel.unpack with
  | notANumber => exact hnan _ hmul (by rw [hux]; rfl)
  | infinity s => exact hnan _ hmul (by rw [hux, UnpackedFloat.mul, repack_notANumber])
  | zero s => exact hzero _ (by rw [hmul, hux, UnpackedFloat.mul, repack_zero])
  | finite s m e hm => exact hzero _ (by rw [hmul, hux, UnpackedFloat.mul, repack_zero])

theorem place_mul_infinity {x y : Float} (hx : x.isNaN = false)
    (h : y.toModel.unpack = .infinity .positive) :
    place (x * y) =
      if extent x < 0 then minIndex else if extent x = 0 then 0 else maxIndex := by
  have hmul := unpack_mul x y
  have hnx : x.toModel.unpack.isNaN = false := hx
  have hlim := limit_pos
  have hsign : ∀ s : Sign, ∀ n : Nat, 0 < n → reach x.toModel.unpack = s.apply n →
      (x * y).toModel.unpack = .infinity s → place (x * y) =
        if extent x < 0 then minIndex else if extent x = 0 then 0 else maxIndex := by
    intro s n hn hreach hprod
    rw [place_infinity hprod, extent, hreach]
    cases s with
    | negative => rw [if_pos (by change -(n : Int) < 0; omega)]
    | positive =>
      rw [if_neg (by change ¬ (n : Int) < 0; omega), if_neg (by change ¬ (n : Int) = 0; omega)]
  rw [h] at hmul
  cases hux : x.toModel.unpack with
  | notANumber => rw [hux] at hnx; cases hnx
  | infinity s =>
    refine hsign s limit hlim (by rw [hux]; rfl) ?_
    rw [hmul, hux, UnpackedFloat.mul, repack_infinity]
    cases s <;> rfl
  | zero s =>
    have hnan : (x * y).toModel.unpack = .notANumber := by
      rw [hmul, hux, UnpackedFloat.mul, repack_notANumber]
    rw [place_nan (congrArg UnpackedFloat.isNaN hnan), extent, hux]
    rfl
  | finite s m e hm =>
    refine hsign s (magnitude m e) (magnitude_pos hm) (by rw [hux]; rfl) ?_
    rw [hmul, hux, UnpackedFloat.mul, repack_infinity]
    cases s <;> rfl

theorem index_mono (g : Nat) {x y : Float} (h : x ≤ y) : index g x ≤ index g y := by
  obtain ⟨hx, hy, hle⟩ := le_iff.1 h
  have hsign := signOf_unpack_ofNat g
  rw [index, index]
  cases hg : (Float.ofNat g).toModel.unpack with
  | notANumber => rw [hg] at hsign; cases hsign
  | zero s =>
    obtain rfl : s = .positive := Option.some.inj (by rw [← hsign, hg]; rfl)
    rw [place_mul_zero hg, place_mul_zero hg]
  | infinity s =>
    obtain rfl : s = .positive := Option.some.inj (by rw [← hsign, hg]; rfl)
    have hmin : minIndex = -2147483648 := rfl
    have hmax : maxIndex = 2147483647 := rfl
    rw [place_mul_infinity hx hg, place_mul_infinity hy hg]
    split_ifs <;> omega
  | finite s m e hm =>
    obtain rfl : s = .positive := Option.some.inj (by rw [← hsign, hg]; rfl)
    obtain ⟨hxg, hyg, hprod⟩ := le_iff.1 (mul_le_mul_of_le hg h)
    exact place_mono hxg hyg hprod

/-! ## The cells of a box -/

/-- A location in a box falls into a cell that the box touches. -/
theorem cellOf_mem_cellsFor (g : Grid) {box : BoundingBox} {p : Location}
    (h : box.contains p = true) : g.cellOf p ∈ g.cellsFor box := by
  obtain ⟨⟨hsouth, hnorth⟩, hwest, heast⟩ := BoundingBox.contains_iff.1 h
  rw [mem_cellsFor]
  exact ⟨index_mono _ hsouth, index_mono _ hnorth, index_mono _ hwest, index_mono _ heast⟩

end Geocast.Grid
