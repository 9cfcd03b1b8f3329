import Geocast.Geofence.WellKnownText
import Geocast.Proofs.Geofence.Corners

/-!
# Lists of points that are closed once more

A polygon is made of a list of points or of the same list with the first point repeated at its end:
the repetition is dropped. But only one repetition is. If the list ended with its first point
before, the repetition that is dropped is the one that was added, and the other one stays and
counts.

* `polygon_append_first_of_open`: repeating the first point of a list that does not end with it
  changes nothing.
* `polygon_append_first_iff`: nor does it for a list with a point off the globe, or at one place
  only; for every other list it does.
* `polygon_close`: closing a ring only if it is not closed changes nothing.
-/
namespace Geocast

theorem Shape.countRuns_of_same {points : List Location} (hne : points ≠ [])
    (hsame : ∀ p ∈ points, ∀ q ∈ points, (p == q) = true) : countRuns points = 1 := by
  induction points using countRuns.induct with
  | case1 => exact absurd rfl hne
  | case2 p => rfl
  | case3 p q rest hequal ih =>
    rw [countRuns, if_pos hequal]
    exact ih (List.cons_ne_nil q rest) fun x hx y hy =>
      hsame x (List.mem_cons_of_mem p hx) y (List.mem_cons_of_mem p hy)
  | case4 p q rest hdiffer _ => exact absurd (hsame p (by simp) q (by simp)) hdiffer

namespace Geofence
open Location

variable {p : Location} {ps : List Location}

theorem dropClosing_append_first (h : p.isValid = true) :
    dropClosing (p :: ps ++ [p]) = p :: ps := by
  rw [dropClosing, if_pos, List.dropLast_concat]
  rw [List.getLast?_concat, List.cons_append, List.head?_cons, Option.some_beq_some,
    Location.beq_self h, List.length_cons, List.length_append]
  simp

/-- A list with a point off the globe is refused for the first such point. -/
theorem polygon_append_of_invalid {points : List Location}
    (h : ∃ q ∈ points, q.isValid = false) (more : List Location) :
    polygon (points ++ more) = polygon points := by
  obtain ⟨q, hq, hinvalid⟩ := h
  have hsome : (points.find? (!·.isValid)).isSome = true := by
    rw [List.find?_isSome]
    exact ⟨q, hq, by simp [hinvalid]⟩
  obtain ⟨r, hfind⟩ := Option.isSome_iff_exists.1 hsome
  simp only [polygon, List.find?_append, hfind, Option.some_or]

/-- On the globe, a list that is closed once more makes a polygon of all its points. -/
theorem polygon_append_first (hall : (p :: ps).all isValid = true) :
    polygon (p :: ps ++ [p]) =
      if h : (Shape.polygon (p :: ps)).Accepted = true then .ok (ofAccepted _ h)
      else .error (.tooFewPoints (Shape.countRuns (p :: ps))) := by
  have hvalid : p.isValid = true := List.all_eq_true.1 hall p List.mem_cons_self
  have hmore : (p :: ps ++ [p]).all isValid = true := by
    rw [List.all_append, hall, List.all_cons, hvalid]
    rfl
  rw [polygon_of_all hmore]
  simp only [dropClosing_append_first hvalid]

theorem polygon_append_first_of_open (hopen : (Shape.polygon (p :: ps)).isClosed = false) :
    polygon (p :: ps ++ [p]) = polygon (p :: ps) := by
  by_cases hinvalid : ∃ q ∈ p :: ps, q.isValid = false
  · exact polygon_append_of_invalid hinvalid [p]
  · have hall : (p :: ps).all isValid = true := by simpa using hinvalid
    rw [polygon_append_first hall, polygon_of_all hall]
    simp only [dropClosing_of_open hopen]

/-- A closed list stops three times as soon as it leaves its first place. -/
theorem three_le_countRuns_of_closed (hvalid : ∀ q ∈ p :: ps, q.isValid = true)
    (hclosed : (Shape.polygon (p :: ps)).isClosed = true) {q : Location} (hq : q ∈ p :: ps)
    (hdiffer : (q == p) = false) : 3 ≤ Shape.countRuns (p :: ps) := by
  have hp : p.isValid = true := hvalid p List.mem_cons_self
  have hqp := (beq_eq_false_iff (hvalid q hq) hp).1 hdiffer
  rcases List.eq_nil_or_concat' ps with rfl | ⟨middle, last, rfl⟩
  · cases hclosed
  have hlast : last.isValid = true := hvalid last (by simp)
  have hback : p.toPlane = last.toPlane := by
    simp only [Shape.isClosed, ← List.cons_append, List.getLast?_concat, Bool.and_eq_true] at hclosed
    exact (beq_iff_toPlane_eq hp hlast).1 hclosed.2
  have hmiddle : q ∈ middle := by
    simp only [List.mem_cons, List.mem_append, List.not_mem_nil, or_false] at hq
    rcases hq with rfl | hq | rfl
    · exact absurd rfl hqp
    · exact hq
    · exact absurd hback.symm hqp
  have hwalk : [p, q, last].Sublist (p :: (middle ++ [last])) :=
    ((List.singleton_sublist.2 hmiddle).append (List.Sublist.refl [last])).cons_cons p
  exact (Shape.three_le_countRuns_iff hvalid).2
    ⟨p, q, last, hwalk, hqp.symm, fun heq => hqp (heq.trans hback.symm)⟩

/-- The copy of the first point that is dropped is the added one, so a closed list that leaves its
first place keeps one corner more than before. -/
theorem polygon_append_first_ne (hall : (p :: ps).all isValid = true)
    (hclosed : (Shape.polygon (p :: ps)).isClosed = true) {q : Location} (hq : q ∈ p :: ps)
    (hdiffer : (q == p) = false) : polygon (p :: ps ++ [p]) ≠ polygon (p :: ps) := by
  intro hequal
  have hcount := three_le_countRuns_of_closed (List.all_eq_true.1 hall) hclosed hq hdiffer
  have haccepted : (Shape.polygon (p :: ps)).Accepted = true := by
    simp [Shape.Accepted, hall, hcount]
  rw [polygon_append_first hall, polygon_of_all hall, dif_pos haccepted] at hequal
  simp only [dropClosing_of_closed hclosed] at hequal
  split at hequal
  · have hshape := congrArg Geofence.shape (Except.ok.inj hequal)
    have hlength := congrArg List.length (Shape.polygon.inj hshape)
    simp at hlength
  · cases hequal

/-- A list that stays at one place is refused for a single point however often it is closed. -/
theorem polygon_append_first_of_same (hall : (p :: ps).all isValid = true)
    (hclosed : (Shape.polygon (p :: ps)).isClosed = true)
    (hsame : ∀ q ∈ p :: ps, (q == p) = true) : polygon (p :: ps ++ [p]) = polygon (p :: ps) := by
  have hvalid := List.all_eq_true.1 hall
  have hplace : ∀ q ∈ p :: ps, q.toPlane = p.toPlane := fun q hq =>
    toPlane_eq_of_beq (hvalid q hq) (hvalid p List.mem_cons_self) (hsame q hq)
  have hpairs : ∀ q ∈ p :: ps, ∀ r ∈ p :: ps, (q == r) = true := fun q hq r hr =>
    (beq_iff_toPlane_eq (hvalid q hq) (hvalid r hr)).2 ((hplace q hq).trans (hplace r hr).symm)
  have hne : (p :: ps).dropLast ≠ [] := by
    rintro hnil
    have hlength := congrArg List.length hnil
    simp only [Shape.isClosed, Bool.and_eq_true, decide_eq_true_eq] at hclosed
    simp only [List.length_dropLast, List.length_nil] at hlength
    omega
  have hone := Shape.countRuns_of_same (List.cons_ne_nil p ps) hpairs
  have hone' := Shape.countRuns_of_same hne fun q hq r hr =>
    hpairs q (List.mem_of_mem_dropLast hq) r (List.mem_of_mem_dropLast hr)
  rw [polygon_append_first hall, polygon_of_all hall]
  simp only [dropClosing_of_closed hclosed]
  rw [dif_neg (by simp [Shape.Accepted, hone]), dif_neg (by simp [Shape.Accepted, hone']), hone,
    hone']

/-- Repeating the first point of a list at its end changes nothing exactly if the list is not
closed, has a point off the globe, or stays at one place. -/
theorem polygon_append_first_iff :
    polygon (p :: ps ++ [p]) = polygon (p :: ps) ↔
      (Shape.polygon (p :: ps)).isClosed = false ∨ (∃ q ∈ p :: ps, q.isValid = false) ∨
        ∀ q ∈ p :: ps, (q == p) = true := by
  cases hclosed : (Shape.polygon (p :: ps)).isClosed with
  | false => exact iff_of_true (polygon_append_first_of_open hclosed) (.inl rfl)
  | true =>
    by_cases hinvalid : ∃ q ∈ p :: ps, q.isValid = false
    · exact iff_of_true (polygon_append_of_invalid hinvalid [p]) (.inr (.inl hinvalid))
    have hall : (p :: ps).all isValid = true := by simpa using hinvalid
    simp only [Bool.true_eq_false, hinvalid, false_or]
    refine ⟨fun hequal q hq => ?_, polygon_append_first_of_same hall hclosed⟩
    by_contra hdiffer
    exact polygon_append_first_ne hall hclosed hq (Bool.eq_false_iff.2 hdiffer) hequal

theorem polygon_close (points : List Location) :
    polygon (WellKnownText.close points) = polygon points := by
  unfold WellKnownText.close
  split
  · rfl
  next hends =>
    cases points with
    | nil => exact absurd rfl hends
    | cons p ps =>
      refine polygon_append_first_of_open ?_
      rw [Shape.isClosed, Bool.eq_false_iff.2 hends, Bool.and_false]

end Geofence

end Geocast
