import Geocast.Proofs.Number.Nearest

/-!
# Least values and negations

The smaller of two doubles is not larger than either of them that is a number, whatever the other
is; so is the least of many. Negation turns the order around, which makes greatest values of least
ones.

* `min_le_left`, `min_le_right`: the smaller of two doubles, one of which may be NaN.
* `foldl_min_le`, `foldl_min_mem`: the least of some doubles, and that it is one of them.
* `le_neg_of_le_neg`: negation turns the order around.
-/
namespace Geocast.Binary64
open Float.Model Float.Model.UnpackedFloat

/-! ## Least values -/

theorem min_le_right {x y : Float} (hy : y.isNaN = false) : min x y ≤ y := by
  cases hx : x.isNaN with
  | true =>
    rw [min_of_isNaN hx]
    exact le_self hy
  | false => exact (min_spec hx hy).2.2

theorem min_le_left {x y : Float} (hx : x.isNaN = false) : min x y ≤ x := by
  cases hy : y.isNaN with
  | true =>
    rw [min, hx, hy]
    exact le_self hx
  | false => exact (min_spec hx hy).2.1

theorem foldl_min_le_start (xs : List Float) {start : Float} (h : start.isNaN = false) :
    xs.foldl min start ≤ start := by
  induction xs generalizing start with
  | nil => exact le_self h
  | cons y xs ih =>
    have hfirst : min start y ≤ start := min_le_left h
    exact le_trans (ih (le_iff.1 hfirst).1) hfirst

theorem foldl_min_le {xs : List Float} {x : Float} (hx : x ∈ xs) (h : x.isNaN = false)
    (start : Float) : xs.foldl min start ≤ x := by
  induction xs generalizing start with
  | nil => cases hx
  | cons y xs ih =>
    rcases List.mem_cons.1 hx with rfl | hx
    · have hfirst : min start x ≤ x := min_le_right h
      exact le_trans (foldl_min_le_start xs (le_iff.1 hfirst).1) hfirst
    · exact ih hx (min start y)

theorem min_eq_or (x y : Float) : min x y = x ∨ min x y = y := by
  unfold min
  split
  · exact .inr rfl
  split
  · exact .inl rfl
  split
  · exact .inr rfl
  · exact .inl rfl

/-- The least of some doubles is one of them, or where the search for it started. -/
theorem foldl_min_mem (xs : List Float) (start : Float) :
    xs.foldl min start = start ∨ xs.foldl min start ∈ xs := by
  induction xs generalizing start with
  | nil => exact .inl rfl
  | cons x xs ih =>
    rcases ih (min start x) with hstart | hmem
    · rcases min_eq_or start x with hfirst | hfirst
      · exact .inl (hstart.trans hfirst)
      · exact .inr (List.mem_cons.2 (.inl (hstart.trans hfirst)))
    · exact .inr (List.mem_cons_of_mem x hmem)

/-! ## Negations -/

theorem unpack_neg (x : Float) : (-x).toModel.unpack = x.toModel.unpack.neg :=
  repack_eq (fits_neg (fits_unpack x))

theorem extent_neg (x : Float) : extent (-x) = -extent x := by
  rw [extent, unpack_neg, reach_neg]
  rfl

theorem isNaN_neg (x : Float) : (-x).isNaN = x.isNaN := by
  change (-x).toModel.unpack.isNaN = x.toModel.unpack.isNaN
  rw [unpack_neg]
  cases x.toModel.unpack <;> rfl

theorem le_neg_of_le_neg {x y : Float} (h : x ≤ -y) : y ≤ -x := by
  rw [le_iff, isNaN_neg, extent_neg] at h
  rw [le_iff, isNaN_neg, extent_neg]
  exact ⟨h.2.1, h.1, by omega⟩

end Geocast.Binary64
