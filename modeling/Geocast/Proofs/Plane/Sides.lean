import Geocast.Plane.Ring
import Geocast.Proofs.Number.Nearest

/-!
# Sides of lines

`turn` tells the side of a line by an exact area where no coordinate is tiny, and else by a
determinant in doubles from which products may have vanished. What is proved of rings assumes of
the points at hand that their sides are told exactly; plain points are like that. The ends of a line
are on it in any case.

* `Exact`: of three of the points, the side of the third is that of its area.
* `exact_of_isPlain`: points without tiny coordinates are told apart exactly.
* `turn_target`: no end of a line is on one side of it, tiny or not.
-/
namespace Geocast.Plane

/-! ## Exact sides -/

/-- Of three of the points, the side on which the third lies of the line through the others is told
exactly. -/
def Exact (points : List Point) : Prop :=
  ∀ a ∈ points, ∀ b ∈ points, ∀ p ∈ points, (turn a b p).sign = (area a b p).sign

theorem exact_of_isPlain {points : List Point} (h : ∀ p ∈ points, p.isPlain = true) :
    Exact points := by
  intro a ha b hb p hp
  rw [turn_of_isPlain (h a ha) (h b hb) (h p hp)]

theorem Exact.mono {points others : List Point} (h : Exact points)
    (hsub : ∀ p ∈ others, p ∈ points) : Exact others :=
  fun a ha b hb p hp => h a (hsub a ha) b (hsub b hb) p (hsub p hp)

theorem Exact.turn_pos {points : List Point} (h : Exact points) {a b p : Point} (ha : a ∈ points)
    (hb : b ∈ points) (hp : p ∈ points) : 0 < turn a b p ↔ 0 < area a b p := by
  rw [← Int.sign_eq_one_iff_pos, h a ha b hb p hp, Int.sign_eq_one_iff_pos]

theorem Exact.turn_neg {points : List Point} (h : Exact points) {a b p : Point} (ha : a ∈ points)
    (hb : b ∈ points) (hp : p ∈ points) : turn a b p < 0 ↔ area a b p < 0 := by
  rw [← Int.sign_eq_neg_one_iff_neg, h a ha b hb p hp, Int.sign_eq_neg_one_iff_neg]

theorem Exact.side_eq {points : List Point} (h : Exact points) {e : Edge} {p : Point}
    (hs : e.source ∈ points) (ht : e.target ∈ points) (hp : p ∈ points) :
    e.side p = (area e.source e.target p).sign := h _ hs _ ht _ hp

theorem Exact.side_eq_zero_iff {points : List Point} (h : Exact points) {e : Edge} {p : Point}
    (hs : e.source ∈ points) (ht : e.target ∈ points) (hp : p ∈ points) :
    e.side p = 0 ↔ area e.source e.target p = 0 := by
  rw [h.side_eq hs ht hp, Int.sign_eq_zero_iff_zero]

/-! ## Areas -/

theorem area_target (a b : Point) : area a b b = 0 := by
  unfold area
  ring

theorem area_swap (a b p : Point) : area b a p = -area a b p := by
  unfold area
  ring

/-- The area as the determinant of the ways from the third point to the others. -/
theorem area_eq (a b p : Point) :
    area a b p = (a.x - p.x) * (b.y - p.y) + (p.y - a.y) * (b.x - p.x) := by
  unfold area
  ring

/-! ## The ends of a line -/

/-- The units of half a turn, the greatest angle of a location. -/
def halfTurn : Nat := (Binary64.units 180.0).toNat

/-- A point is on the map when its coordinates are not further out than half a turn. -/
def Point.OnMap (p : Point) : Prop := p.x.natAbs ≤ halfTurn ∧ p.y.natAbs ≤ halfTurn

open Binary64 in
theorem isFinite_sub_ofUnits {m n : Int} (hm : m.natAbs ≤ halfTurn) (hn : n.natAbs ≤ halfTurn) :
    (ofUnits n).isFinite = true ∧ (ofUnits m - ofUnits n).isFinite = true := by
  have hhalf : (extent 180.0).natAbs = halfTurn := by decide +kernel
  have hfull : (extent 360.0).natAbs = 2 * halfTurn := by decide +kernel
  have hlimit : 2 * halfTurn < limit := by decide +kernel
  have hnear : ∀ {z : Int}, z.natAbs ≤ halfTurn → (extent (ofUnits z)).natAbs ≤ halfTurn := by
    intro z hz
    have hround := natAbs_rounded_le (x := 180.0) rfl (hz.trans hhalf.ge)
    rwa [← (extent_ofUnits z).2, hhalf] at hround
  have hfinite : ∀ {z : Int}, z.natAbs ≤ halfTurn → (ofUnits z).isFinite = true := by
    intro z hz
    have := hnear hz
    exact isFinite_iff.2 ⟨(extent_ofUnits z).1, by omega⟩
  refine ⟨hfinite hn, isFinite_iff.2 ⟨isNaN_sub (hfinite hm) (hfinite hn), ?_⟩⟩
  have hm' := hnear hm
  have hn' := hnear hn
  have hround := natAbs_rounded_le (x := 360.0) rfl
    (z := extent (ofUnits m) - extent (ofUnits n)) (by omega)
  rw [← extent_sub (hfinite hm) (hfinite hn)] at hround
  omega

open Binary64 in
/-- The determinant of a vector and a vanishing one is zero already in its two products. -/
theorem signOf_determinant_of_isZero {ux uy vx vy : Rounded} (hux : ux.value.isFinite = true)
    (huy : uy.value.isFinite = true) (hvx : IsZero vx.value) (hvy : IsZero vy.value) :
    signOf (determinant ux uy vx vy) = 0 := by
  have hleft := IsZero.mul hux hvy
  have hright := IsZero.mul huy hvx
  have hdiff := hleft.sub hright
  have hbound := IsZero.mul (x := 3.3306690621773722e-16) rfl (hleft.add hright).abs
  have hzero : IsZero 0.0 := ⟨.positive, rfl⟩
  unfold determinant
  dsimp only
  rw [if_pos]
  · unfold signOf
    rw [if_neg, if_neg]
    · rw [lt_iff, hdiff.extent, hzero.extent]
      exact fun h => Int.lt_irrefl 0 h.2.2
    · rw [lt_iff, hdiff.extent, hzero.extent]
      exact fun h => Int.lt_irrefl 0 h.2.2
  · unfold exceeds
    rw [Bool.or_eq_true, decide_eq_true_eq]
    exact .inl (hbound.le hdiff)

open Binary64 in
theorem turn_target {a b : Point} (ha : a.OnMap) (hb : b.OnMap) : turn a b b = 0 := by
  unfold turn
  split
  · exact area_target a b
  · unfold roundedTurn Rounded.sub
    dsimp only
    have hx := isFinite_sub_ofUnits ha.1 hb.1
    have hy := isFinite_sub_ofUnits ha.2 hb.2
    exact signOf_determinant_of_isZero hx.2 hy.2 (isZero_sub_self hx.1) (isZero_sub_self hy.1)

end Geocast.Plane
