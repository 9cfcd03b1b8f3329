import Geocast.Proofs.Grid.Order
import Geocast.Proofs.Number.Whole

/-!
# Cells of their own corners

The south-west corner of a cell is a rounded quotient, and its cell the whole part of a rounded
product. The quotient is so close that the product is within half a place of the cell's own place,
so the corner falls into its cell or into the one before, and it falls short exactly where the
product is rounded below the whole number. Where the number of cells per degree is a power of two,
or the sum of two, the error of the quotient is always undone by the product.

* `start`: the angle at which the cells of a place start.
* `index_start`: the place that this angle falls into.
* `index_start_of_isPowerSum`: numbers of cells for which it is always the place itself.
* `start_injective`: no two places start at the same angle.
* `cellOf_cellOrigin`: all of it for cells and their corners.
-/
namespace Geocast.Grid
open Binary64 Float.Model Float.Model.UnpackedFloat

/-! ## The angle of a place -/

/-- The angle at which the cells of a place start. -/
def start (g : Nat) (i : Int) : Float := Float.ofInt i / Float.ofNat g

section Place
variable {g : Nat} (hg : 0 < g) (hg' : g < 2 ^ 32)
include hg hg'

theorem extent_start {n : Nat} (s : Sign) (hn : n ≤ 2 ^ 31) :
    extent (start g (s.apply n)) = s.apply (roundFraction (n * 2 ^ 1074) g : Nat) := by
  have hbits : (s.apply (n : Int)).natAbs < 2 ^ 53 := by
    rw [natAbs_apply]
    omega
  have hzero : Min.min (roundFraction 0 g) limit = 0 := by rw [roundFraction_zero, Nat.zero_min]
  have hfits := roundFraction_lt_limit hn (p := 1074) (by decide) (by decide) hg hg'
  rw [start, extent_div_ofNat (isFinite_ofInt hbits) hg (by omega), extent_ofInt hbits,
    apply_mul_two_pow, oddly_apply (f := fun n => Min.min (roundFraction n g) limit) hzero,
    Nat.min_eq_left hfits.le]

section Index
variable {i : Int} (hi : i.natAbs ≤ 2 ^ 31)
include hi

theorem isFinite_start : (start g i).isFinite = true := by
  have hbits : i.natAbs < 2 ^ 53 := by omega
  refine isFinite_iff.2 ⟨isNaN_div_ofNat (isFinite_ofInt hbits) hg (by omega), ?_⟩
  obtain ⟨s, n, rfl⟩ := exists_apply i
  rw [natAbs_apply] at hi
  rw [extent_start hg hg' s hi, natAbs_apply]
  exact roundFraction_lt_limit hi (by decide) (by decide) hg hg'

/-- Multiplied again, the angle is within half a unit of the place. -/
theorem start_near :
    2 * (extent (start g i) * g) < 2 * (i * 2 ^ 1074) + 2 ^ 1074 ∧
      2 * (i * 2 ^ 1074) < 2 * (extent (start g i) * g) + 2 ^ 1074 := by
  obtain ⟨s, n, rfl⟩ := exists_apply i
  rw [natAbs_apply] at hi
  obtain ⟨hover, hunder⟩ := roundFraction_near_whole hi (p := 1074) (by decide) hg hg'
  have hunit : (2 : Int) ^ 1074 = (2 ^ 1074 : Nat) := by rw [Nat.cast_pow, Nat.cast_ofNat]
  rw [extent_start hg hg' s hi, apply_mul, apply_mul_two_pow, hunit]
  generalize roundFraction (n * 2 ^ 1074) g * g = t at *
  generalize n * 2 ^ 1074 = w at *
  generalize 2 ^ 1074 = u at *
  cases s <;> simp only [Sign.apply] <;> omega

theorem extent_start_mul :
    extent (start g i * Float.ofNat g) = rounded (extent (start g i) * g) :=
  extent_mul_ofNat (isFinite_start hg hg' hi) hg (by omega)

end Index

end Place

/-! ## Where the angle of a place falls -/

/-- The place that the angle of a place falls into: the place itself, or the one before when the
product is rounded below it. -/
def landing (g : Nat) (i : Int) : Int :=
  if Float.ofInt i ≤ start g i * Float.ofNat g then i else max minIndex (i - 1)

/-- A power of two, or the sum of two. -/
def IsPowerSum (g : Nat) : Prop := ∃ a b, g = 2 ^ a ∨ g = 2 ^ a + 2 ^ b

/-- A sum of two powers of two is odd, but for some factors of two, and next to a power of two. -/
theorem IsPowerSum.split {g : Nat} (h : IsPowerSum g) :
    ∃ b h c, g = 2 ^ b * h ∧ h % 2 = 1 ∧ 2 ^ c ≤ h ∧ h ≤ 2 ^ c + 1 := by
  have hsum : ∀ a c : Nat, ∃ b h c', 2 ^ a + 2 ^ (a + c) = 2 ^ b * h ∧ h % 2 = 1 ∧ 2 ^ c' ≤ h ∧
      h ≤ 2 ^ c' + 1 := by
    intro a c
    cases c with
    | zero => exact ⟨a + 1, 1, 0, by ring, rfl, le_refl _, by decide⟩
    | succ c =>
      have hodd : (2 ^ (c + 1) + 1) % 2 = 1 := by rw [Nat.pow_succ]; omega
      exact ⟨a, 2 ^ (c + 1) + 1, c + 1, by ring, hodd, Nat.le_succ _, le_refl _⟩
  obtain ⟨a, b, rfl | rfl⟩ := h
  · exact ⟨a, 1, 0, (Nat.mul_one _).symm, rfl, le_refl _, by decide⟩
  · rcases Nat.le_total a b with hle | hle
    · obtain ⟨c, rfl⟩ := Nat.exists_eq_add_of_le hle
      exact hsum a c
    · obtain ⟨c, rfl⟩ := Nat.exists_eq_add_of_le hle
      rw [Nat.add_comm]
      exact hsum b c

theorem natAbs_le {i : Int} (hi : minIndex ≤ i) (hi' : i ≤ maxIndex) : i.natAbs ≤ 2 ^ 31 := by
  have hmin : minIndex = -2147483648 := rfl
  have hmax : maxIndex = 2147483647 := rfl
  omega

section Landing
variable {g : Nat} (hg : 0 < g) (hg' : g < 2 ^ 32) {i : Int} (hi : minIndex ≤ i)
  (hi' : i ≤ maxIndex)
include hg hg' hi hi'

theorem index_start : index g (start g i) = landing g i := by
  have hmin : minIndex = -2147483648 := rfl
  have hmax : maxIndex = 2147483647 := rfl
  have habs := natAbs_le hi hi'
  have hbits : i.natAbs < 2 ^ 53 := by omega
  have hnumber := isNaN_mul_ofNat (isFinite_start hg hg' habs) hg (by omega)
  obtain ⟨hover, hunder⟩ := start_near hg hg' habs
  obtain ⟨hlow, hhigh⟩ := rounded_near (k := 1073) habs (by decide) hover hunder
  have hreturn : Float.ofInt i ≤ start g i * Float.ofNat g ↔
      i ≤ (rounded (extent (start g i) * g)).shiftRight 1074 := by
    rw [le_iff, le_shiftRight_iff, extent_ofInt hbits, extent_start_mul hg hg' habs]
    exact ⟨fun h => h.2.2, fun h => ⟨isNaN_ofInt i, hnumber, h⟩⟩
  have hwidth : i - 1 ≤ (rounded (extent (start g i) * g)).shiftRight 1074 ∧
      ¬ i + 1 ≤ (rounded (extent (start g i) * g)).shiftRight 1074 := by
    rw [le_shiftRight_iff, le_shiftRight_iff, not_le]
    exact ⟨hlow, hhigh⟩
  rw [index, place_eq hnumber, extent_start_mul hg hg' habs, landing]
  simp only [hreturn]
  split <;> omega

/-- Where the number of cells per degree is a power of two, or the sum of two, the angle of a place
falls into that place. -/
theorem index_start_of_isPowerSum (h : IsPowerSum g) : index g (start g i) = i := by
  have habs := natAbs_le hi hi'
  have hbits : i.natAbs < 2 ^ 53 := by omega
  have hnumber := isNaN_mul_ofNat (isFinite_start hg hg' habs) hg (by omega)
  have hback : rounded (extent (start g i) * g) = i * 2 ^ 1074 := by
    obtain ⟨s, n, rfl⟩ := exists_apply i
    obtain ⟨b, h, c, rfl, hodd, hlow, hhigh⟩ := h.split
    rw [natAbs_apply] at habs
    have hfits := lt_limit_of_bits (m := n) (k := 1074) (by omega) (by decide)
    rw [extent_start hg hg' s habs, apply_mul, rounded_apply, apply_mul_two_pow,
      roundWhole_roundFraction habs (by decide) hodd hlow hhigh hg', Nat.min_eq_left hfits.le]
  rw [index_start hg hg' hi hi', landing, if_pos]
  rw [le_iff, extent_ofInt hbits, extent_start_mul hg hg' habs, hback]
  exact ⟨isNaN_ofInt i, hnumber, le_refl _⟩

end Landing

theorem start_injective {g : Nat} (hg : 0 < g) (hg' : g < 2 ^ 32) {i j : Int}
    (hi : i.natAbs ≤ 2 ^ 31) (hj : j.natAbs ≤ 2 ^ 31)
    (h : extent (start g i) = extent (start g j)) : i = j := by
  have hle : ∀ {i j : Int}, i.natAbs ≤ 2 ^ 31 → j.natAbs ≤ 2 ^ 31 →
      extent (start g i) = extent (start g j) → i ≤ j := by
    intro i j hi hj h
    have hpos : (0 : Int) < 2 ^ 1074 := by positivity
    obtain ⟨-, hunder⟩ := start_near hg hg' hi
    obtain ⟨hover, -⟩ := start_near hg hg' hj
    rw [h] at hunder
    generalize (2 : Int) ^ 1074 = u at *
    have hlt : i * u < (j + 1) * u := by linarith
    exact Int.lt_add_one_iff.1 (lt_of_mul_lt_mul_right hlt hpos.le)
  exact le_antisymm (hle hi hj h) (hle hj hi h.symm)

/-! ## Cells -/

/-- The places of a cell are among those a grid has. -/
structure HasCell (c : Cell) : Prop where
  lat : minIndex ≤ c.lat ∧ c.lat ≤ maxIndex
  lon : minIndex ≤ c.lon ∧ c.lon ≤ maxIndex

theorem place_range (x : Float) : minIndex ≤ place x ∧ place x ≤ maxIndex := by
  have hmin : minIndex = -2147483648 := rfl
  have hmax : maxIndex = 2147483647 := rfl
  rw [place]
  split_ifs <;> omega

theorem hasCell_cellOf (g : Grid) (p : Location) : HasCell (g.cellOf p) :=
  ⟨place_range _, place_range _⟩

section Corner
variable {g : Grid} (hg : 0 < g.granularity) (hg' : g.granularity < 2 ^ 32) {c : Cell}
  (hc : HasCell c)
include hg hg' hc

theorem cellOf_cellOrigin_of_isPowerSum (h : IsPowerSum g.granularity) :
    g.cellOf (g.cellOrigin c) = c := by
  obtain ⟨⟨hlat, hlat'⟩, hlon, hlon'⟩ := hc
  change Cell.mk (index _ (start _ c.lat)) (index _ (start _ c.lon)) = c
  rw [index_start_of_isPowerSum hg hg' hlat hlat' h, index_start_of_isPowerSum hg hg' hlon hlon' h]

theorem cellOrigin_injective {d : Cell} (hd : HasCell d)
    (h : (g.cellOrigin c == g.cellOrigin d) = true) : c = d := by
  obtain ⟨hlat, hlon⟩ := (Bool.and_eq_true _ _).mp h
  obtain ⟨lat, lon⟩ := c
  obtain ⟨lat', lon'⟩ := d
  rw [Cell.mk.injEq]
  exact ⟨start_injective hg hg' (natAbs_le hc.lat.1 hc.lat.2) (natAbs_le hd.lat.1 hd.lat.2)
      (beq_iff.1 hlat).2.2,
    start_injective hg hg' (natAbs_le hc.lon.1 hc.lon.2) (natAbs_le hd.lon.1 hd.lon.2)
      (beq_iff.1 hlon).2.2⟩

/-- The corner of a cell falls into that cell, but for each coordinate whose product is rounded
below the place, which falls into the place before. It never happens where the number of cells per
degree is a power of two, or the sum of two: there a location and the corner of its cell fall into
the same cell. No two cells have the same corner in any case. -/
theorem cellOf_cellOrigin :
    g.cellOf (g.cellOrigin c) = ⟨landing g.granularity c.lat, landing g.granularity c.lon⟩ ∧
      (IsPowerSum g.granularity → g.cellOf (g.cellOrigin c) = c ∧
        ∀ p, g.cellOf (g.cellOrigin (g.cellOf p)) = g.cellOf p) ∧
      ∀ d, HasCell d → (g.cellOrigin c == g.cellOrigin d) = true → c = d := by
  refine ⟨?_, fun h => ⟨cellOf_cellOrigin_of_isPowerSum hg hg' hc h, fun p => ?_⟩,
    fun d hd => cellOrigin_injective hg hg' hc hd⟩
  · obtain ⟨⟨hlat, hlat'⟩, hlon, hlon'⟩ := hc
    rw [← index_start hg hg' hlat hlat', ← index_start hg hg' hlon hlon']
    rfl
  · exact cellOf_cellOrigin_of_isPowerSum hg hg' (hasCell_cellOf g p) h

end Corner

theorem cellOf_cellOrigin_ten :
    IsPowerSum 10 ∧ (empty 10).cellOf ((empty 10).cellOrigin ⟨105, -1⟩) = ⟨105, -1⟩ := by
  have hsum : IsPowerSum (empty 10).granularity := ⟨1, 3, .inr rfl⟩
  exact ⟨hsum, ((cellOf_cellOrigin (g := empty 10) (by decide) (by decide)
    ⟨by decide, by decide⟩).2.1 hsum).1⟩

/-- With forty-nine cells per degree the first cell's corner falls into the cell before. -/
theorem corner_of_first_cell_falls_short :
    ((empty 49).cellOrigin ⟨1, 0⟩).isValid = true ∧
      (empty 49).cellOf ((empty 49).cellOrigin ⟨1, 0⟩) = ⟨0, 0⟩ := by
  decide +kernel

end Geocast.Grid
