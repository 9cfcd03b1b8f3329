/-!
# Points, boxes and edges of the plane

Points have integer coordinates. The unit is the least positive double, so every double is a
coordinate and nothing is rounded where distances and areas are taken as integers.
-/
namespace Geocast.Plane

/-- A point with integer coordinates. -/
structure Point where
  x : Int
  y : Int
  deriving DecidableEq, Repr

@[ext] theorem Point.ext {p q : Point} (hx : p.x = q.x) (hy : p.y = q.y) : p = q := by
  cases p
  cases q
  cases hx
  cases hy
  rfl

/-- Twice the signed area of the triangle `a`, `b`, `p`: positive when `p` lies left of the way from
`a` to `b`, negative when right of it, zero on the line. -/
def area (a b p : Point) : Int := (b.x - a.x) * (p.y - a.y) - (b.y - a.y) * (p.x - a.x)

/-- A box with its sides along the axes, by its least and greatest coordinates. -/
structure Box where
  lo : Point
  hi : Point
  deriving DecidableEq, Repr

namespace Box

/-- The box that two points span. -/
def span (a b : Point) : Box := ⟨⟨min a.x b.x, min a.y b.y⟩, ⟨max a.x b.x, max a.y b.y⟩⟩

def insert (b : Box) (p : Point) : Box :=
  ⟨⟨min b.lo.x p.x, min b.lo.y p.y⟩, ⟨max b.hi.x p.x, max b.hi.y p.y⟩⟩

/-- Whether a point lies in a box or on its border. -/
def contains (b : Box) (p : Point) : Bool :=
  b.lo.x ≤ p.x && p.x ≤ b.hi.x && b.lo.y ≤ p.y && p.y ≤ b.hi.y

theorem contains_iff {b : Box} {p : Point} : b.contains p = true ↔
    (b.lo.x ≤ p.x ∧ p.x ≤ b.hi.x) ∧ b.lo.y ≤ p.y ∧ p.y ≤ b.hi.y := by
  simp [contains, and_assoc]

def meets (b c : Box) : Bool :=
  b.lo.x ≤ c.hi.x && c.lo.x ≤ b.hi.x && b.lo.y ≤ c.hi.y && c.lo.y ≤ b.hi.y

theorem meets_iff {b c : Box} : b.meets c = true ↔
    (b.lo.x ≤ c.hi.x ∧ c.lo.x ≤ b.hi.x) ∧ b.lo.y ≤ c.hi.y ∧ c.lo.y ≤ b.hi.y := by
  simp [meets, and_assoc]

end Box

structure Edge where
  source : Point
  target : Point
  deriving DecidableEq, Repr

/-- The box that the ends of an edge span. -/
def Edge.box (e : Edge) : Box := .span e.source e.target

end Geocast.Plane
