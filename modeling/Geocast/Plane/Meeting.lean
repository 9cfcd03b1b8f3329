import Geocast.Plane.Ring

/-!
# Where two edges meet

Two edges with different ends each may cross inside both of them, touch in one point that is an end
of one of them, or share a stretch of a line, which is known by its two ends.
-/
namespace Geocast.Plane

inductive Meeting where
  | apart
  | crossing
  | touching (points : List Point)
  deriving DecidableEq, Repr

namespace Edge

/-- The meeting of two edges on one line. The shared stretch ends in the two ends of one edge, or in
one end of each. -/
def meetingOnLine (e f : Edge) : Meeting :=
  let onE := [f.source, f.target].filter e.box.contains
  let onF := [e.source, e.target].filter f.box.contains
  match onE, onF with
  | [_, _], _ => .touching onE
  | _, [_, _] => .touching onF
  | [p], [q] => .touching [p, q]
  | _, _ => .apart

/-- The point where two edges touch that are not on one line: an end that both have, or else an end
of one on the line of the other. -/
def touchPoint (e f : Edge) : Point :=
  if e.source = f.source ∨ e.source = f.target then e.source
  else if e.target = f.source ∨ e.target = f.target then e.target
  else if e.side f.source = 0 then f.source
  else if e.side f.target = 0 then f.target
  else if f.side e.source = 0 then e.source
  else e.target

/-- How two edges meet whose boxes meet. They are apart when the ends of one are strictly on one
side of the other. -/
def meetingNear (e f : Edge) : Meeting :=
  let s := [e.side f.source, e.side f.target]
  let t := [f.side e.source, f.side e.target]
  let oneSided (sides : List Int) : Bool := sides == [1, 1] || sides == [-1, -1]
  if oneSided s || oneSided t then .apart
  else if (s ++ t).all (· == 0) then meetingOnLine e f
  else if (s ++ t).any (· == 0) then .touching [touchPoint e f]
  else .crossing

def meeting (e f : Edge) : Meeting := if e.box.meets f.box then meetingNear e f else .apart

end Edge

end Geocast.Plane
