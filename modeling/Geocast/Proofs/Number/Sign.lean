import Geocast.Proofs.Number.Nearest

/-!
# Doubles without a minus sign

A double without a minus sign is NaN or not below zero. Products and quotients of such doubles are
such doubles, however much they are rounded; so are magnitudes, and the closest doubles to fractions
unless a minus sign is asked for. What is taken off a double and has no minus sign leaves none
larger, which gives the ranges around it.

* `Plus`: a double without a minus sign.
* `Plus.mul`, `Plus.div`, `plus_abs`, `plus_nearest`: where such doubles come from.
* `max_sub_spec`, `min_add_spec`: the two ends of a range around a double, cut at bounds.
-/
namespace Geocast.Binary64
open Float.Model Float.Model.UnpackedFloat

/-! ## Doubles without a minus sign -/

theorem none_ne_negative : (none : Option Sign) ≠ some .negative := nofun

theorem positive_ne_negative : some Sign.positive ≠ some .negative := nofun

/-- A double has no minus sign. -/
def Plus (x : Float) : Prop := signOf x.toModel.unpack ≠ some .negative

theorem positive_cases {u : UnpackedFloat} (h : signOf u ≠ some .negative) :
    u = .notANumber ∨ u = .infinity .positive ∨ u = .zero .positive ∨
      ∃ m e hm, u = .finite .positive m e hm := by
  cases u with
  | notANumber => exact .inl rfl
  | infinity s =>
    cases s with
    | negative => exact absurd rfl h
    | positive => exact .inr (.inl rfl)
  | zero s =>
    cases s with
    | negative => exact absurd rfl h
    | positive => exact .inr (.inr (.inl rfl))
  | finite s m e hm =>
    cases s with
    | negative => exact absurd rfl h
    | positive => exact .inr (.inr (.inr ⟨m, e, hm, rfl⟩))

theorem zero_le_reach {u : UnpackedFloat} (h : signOf u ≠ some .negative) : 0 ≤ reach u := by
  rcases positive_cases h with rfl | rfl | rfl | ⟨m, e, hm, rfl⟩
  · exact Int.le_refl 0
  · exact Int.natCast_nonneg limit
  · exact Int.le_refl 0
  · exact Int.natCast_nonneg (magnitude m e)

theorem reach_le_zero {u : UnpackedFloat} (h : signOf u = some .negative) : reach u ≤ 0 := by
  have hneg : signOf u.neg ≠ some .negative := by
    cases u <;> cases h <;> exact nofun
  have hle := zero_le_reach hneg
  rw [reach_neg] at hle
  omega

theorem plus_of_pos {x : Float} (h : 0.0 < x) : Plus x := by
  intro hneg
  have hle : extent x ≤ 0 := reach_le_zero hneg
  have hlt := (lt_iff.1 h).2.2
  rw [extent_zero] at hlt
  omega

theorem Plus.not_lt_zero {x : Float} (h : Plus x) : ¬ x < 0.0 := by
  intro hneg
  have hle : 0 ≤ extent x := zero_le_reach h
  have hlt := (lt_iff.1 hneg).2.2
  rw [extent_zero] at hlt
  omega

theorem plus_of_isNaN {x : Float} (h : x.isNaN = true) : Plus x := by
  have hnone : (signOf x.toModel.unpack).isNone = true := (isNaN_eq _).symm.trans h
  rw [Plus, Option.isNone_iff_eq_none.1 hnone]
  exact nofun

theorem Plus.mul {x y : Float} (hx : Plus x) (hy : Plus y) : Plus (x * y) := by
  rw [Plus, unpack_mul, signOf_repack]
  rcases positive_cases hx with h | h | h | ⟨m, e, hm, h⟩ <;>
    rcases positive_cases hy with h' | h' | h' | ⟨n, d, hn, h'⟩ <;> rw [h, h']
  case inr.inr.inr.inr.inr.inr =>
    rw [UnpackedFloat.mul, signOf_roundWithAccuracy]
    exact positive_ne_negative
  all_goals first | exact none_ne_negative | exact positive_ne_negative

theorem unpack_div (x y : Float) : (x / y).toModel.unpack =
    repack (UnpackedFloat.div Format.binary64 x.toModel.unpack y.toModel.unpack) := rfl

theorem Plus.div {x y : Float} (hx : Plus x) (hy : Plus y) : Plus (x / y) := by
  rw [Plus, unpack_div, signOf_repack]
  rcases positive_cases hx with h | h | h | ⟨m, e, hm, h⟩ <;>
    rcases positive_cases hy with h' | h' | h' | ⟨n, d, hn, h'⟩ <;> rw [h, h']
  case inr.inr.inr.inr.inr.inr =>
    rw [UnpackedFloat.div, signOf_roundWithAccuracy]
    exact positive_ne_negative
  all_goals first | exact none_ne_negative | exact positive_ne_negative

theorem signOf_unpack (w : BitVec 64) :
    signOf (UnpackedFloat.unpack Format.binary64 w) = none ∨
      signOf (UnpackedFloat.unpack Format.binary64 w) =
        some (Sign.ofBitVec (@unpackSign Format.binary64 w)) := by
  unfold UnpackedFloat.unpack
  dsimp only
  split
  · split
    · exact .inr rfl
    · exact .inl rfl
  · split
    · split <;> exact .inr rfl
    · exact .inr rfl

theorem Plus.isNegative {x : Float} (h : Plus x) (hx : x.isNaN = false) :
    Binary64.isNegative x = false := by
  have hnumber : (signOf x.toModel.unpack).isNone = false := (isNaN_eq _).symm.trans hx
  rcases signOf_unpack (word x) with hsign | hsign
  · change signOf x.toModel.unpack = none at hsign
    rw [hsign] at hnumber
    cases hnumber
  · change signOf x.toModel.unpack = _ at hsign
    rw [Plus, hsign, ofBitVec_unpackSign] at h
    cases hneg : Binary64.isNegative x with
    | false => rfl
    | true => exact absurd (by rw [hneg]; rfl) h

theorem plus_ofBits {magnitude : Nat} (h : magnitude < 2 ^ 63) :
    Plus (Float.ofBits (signBit false ||| magnitude.toUInt64)) := by
  rw [Plus, unpack_ofBits, signOf_repack]
  rcases signOf_unpack (signBit false ||| magnitude.toUInt64).toBitVec with hsign | hsign
  · rw [hsign]
    exact nofun
  · rw [hsign, (fields_ofBits false h).2.2]
    exact nofun

/-- The closest double is put together from a sign and a magnitude, which does not depend on the
sign. -/
theorem exists_nearest_eq (m : Nat) (e : Int) :
    ∃ magnitude < 2 ^ 63, ∀ negative,
      nearest negative m e = Float.ofBits (signBit negative ||| magnitude.toUInt64) := by
  have hzero : Nat.toUInt64 0 = 0 := rfl
  have hinfinity : Nat.toUInt64 0x7FF0000000000000 = 0x7FF0000000000000 := rfl
  unfold nearest signBit
  dsimp only
  split
  · exact ⟨0, by decide, fun negative => by rw [hzero, UInt64.or_zero]⟩
  · generalize (_ <<< 52 + _ : Nat) = magnitude
    split
    next hfits => exact ⟨magnitude, by omega, fun negative => rfl⟩
    next => exact ⟨0x7FF0000000000000, by decide, fun negative => by rw [hinfinity]⟩

theorem plus_nearest (m : Nat) (e : Int) : Plus (nearest false m e) := by
  obtain ⟨magnitude, hlt, heq⟩ := exists_nearest_eq m e
  rw [heq]
  exact plus_ofBits hlt

/-! ## Magnitudes -/

theorem unpack_abs (x : Float) : x.abs.toModel.unpack = repack x.toModel.unpack.abs := rfl

theorem plus_abs (x : Float) : Plus x.abs := by
  rw [Plus, unpack_abs, signOf_repack]
  cases x.toModel.unpack <;> exact nofun

theorem isFinite_abs {x : Float} (h : x.isFinite = true) : x.abs.isFinite = true := by
  have hfits : Fits x.toModel.unpack.abs := by
    have := fits_unpack x
    cases hx : x.toModel.unpack <;> rw [hx] at this <;> exact this
  have hfinite : x.toModel.unpack.isFinite = true := h
  change x.abs.toModel.unpack.isFinite = true
  rw [unpack_abs, repack_eq hfits]
  cases hx : x.toModel.unpack <;> rw [hx] at hfinite <;> exact hfinite

/-! ## Ranges around a double -/

theorem unpack_of_isNaN {x : Float} (h : x.isNaN = true) : x.toModel.unpack = .notANumber := by
  have hnan : x.toModel.unpack.isNaN = true := h
  cases hx : x.toModel.unpack with
  | notANumber => rfl
  | infinity s => rw [hx] at hnan; cases hnan
  | zero s => rw [hx] at hnan; cases hnan
  | finite s m e hm => rw [hx] at hnan; cases hnan

theorem isNaN_sub_of_isNaN (x : Float) {d : Float} (h : d.isNaN = true) : (x - d).isNaN = true := by
  have hsub : ∀ u, UnpackedFloat.sub Format.binary64 u .notANumber = .notANumber := by
    intro u
    cases u <;> rfl
  change (x - d).toModel.unpack.isNaN = true
  rw [unpack_sub, unpack_of_isNaN h, hsub]
  rfl

theorem isNaN_add_of_isNaN (x : Float) {d : Float} (h : d.isNaN = true) : (x + d).isNaN = true := by
  have hadd : ∀ u, UnpackedFloat.add Format.binary64 u .notANumber = .notANumber := by
    intro u
    cases u <;> rfl
  change (x + d).toModel.unpack.isNaN = true
  rw [unpack_add, unpack_of_isNaN h, hadd]
  rfl

theorem Plus.isNaN_or_le {x : Float} (h : Plus x) : x.isNaN = true ∨ 0.0 ≤ x := by
  cases hx : x.isNaN with
  | true => exact .inl rfl
  | false => exact .inr (le_of_not_lt hx rfl h.not_lt_zero)

/-- A range below a double, cut at a bound, is in order and ends at the double. -/
theorem max_sub_spec {x d lo : Float} (hx : x.isFinite = true) (hd : Plus d) (hlo : lo ≤ x) :
    lo ≤ max (x - d) lo ∧ max (x - d) lo ≤ x := by
  obtain ⟨hnumber, -, -⟩ := le_iff.1 hlo
  rcases hd.isNaN_or_le with hnan | hle
  · rw [max_of_isNaN (isNaN_sub_of_isNaN x hnan)]
    exact ⟨le_self hnumber, hlo⟩
  · have hsub := sub_le_self hx hle
    obtain ⟨hone, -, hbound⟩ := max_spec (le_iff.1 hsub).1 hnumber
    refine ⟨hbound, ?_⟩
    rcases hone with heq | heq <;> rw [heq]
    · exact hsub
    · exact hlo

/-- A range above a double, cut at a bound, is in order and starts at the double. -/
theorem min_add_spec {x d hi : Float} (hx : x.isFinite = true) (hd : Plus d) (hhi : x ≤ hi) :
    x ≤ min (x + d) hi ∧ min (x + d) hi ≤ hi := by
  obtain ⟨-, hnumber, -⟩ := le_iff.1 hhi
  rcases hd.isNaN_or_le with hnan | hle
  · rw [min_of_isNaN (isNaN_add_of_isNaN x hnan)]
    exact ⟨hhi, le_self hnumber⟩
  · have hadd := le_add_self hx hle
    obtain ⟨hone, -, hbound⟩ := min_spec (le_iff.1 hadd).2.1 hnumber
    refine ⟨?_, hbound⟩
    rcases hone with heq | heq <;> rw [heq]
    · exact hadd
    · exact hhi

end Geocast.Binary64
