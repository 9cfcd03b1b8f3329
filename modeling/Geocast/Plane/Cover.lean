import Geocast.Plane.Overlay

/-!
# One region inside another

The region of one ring covers that of another when their insides have a place in common and nothing
of the other one lies outside. Both are read off the overlay of the rings; where edges cross, each
region has places outside of the other.
-/
namespace Geocast.Plane

/-- Whether the region of the second ring lies in that of the first. -/
def Ring.covers (r s : Ring) : Bool :=
  s.box?.any r.near &&
    match Overlay.ofRings? r s with
    | none => false
    | some v =>
      v.places.contains (.inside, .inside) &&
        !v.places.contains (.outside, .inside) && !v.places.contains (.outside, .border)

end Geocast.Plane
