/-!
# Sums of doubles with their rounding errors

The rounding error of a sum of doubles is a double, and so is that of a product that is not too
small; `Rounded` keeps it. An expansion is a list of doubles, the least first, that stands for their
exact sum. Adding two expansions loses nothing.
-/
namespace Geocast

/-- A rounded result and what rounding took from it. -/
structure Rounded where
  value : Float
  error : Float

namespace Rounded

def add (a b : Float) : Rounded :=
  let x := a + b
  let b' := x - a
  let a' := x - b'
  ⟨x, (a - a') + (b - b')⟩

def sub (a b : Float) : Rounded :=
  let x := a - b
  let b' := a - x
  let a' := x + b'
  ⟨x, (a - a') + (b' - b)⟩

/-- A double as a sum of two doubles of half as many binary digits, the greater first. -/
def halves (a : Float) : Float × Float :=
  let c := 134217729.0 * a
  let high := c - (c - a)
  (high, a - high)

def mul (a b : Float) : Rounded :=
  let x := a * b
  let (a₁, a₂) := halves a
  let (b₁, b₂) := halves b
  ⟨x, a₂ * b₂ - (((x - a₁ * b₁) - a₂ * b₁) - a₁ * b₂)⟩

end Rounded

/-- Doubles, the least first, that stand for their sum. -/
abbrev Expansion := List Float

namespace Expansion

/-- A rounded result less a double, and the least component of the difference. -/
def subDouble (s : Rounded) (b : Float) : Rounded × Float :=
  let low := Rounded.sub s.error b
  (Rounded.add s.value low.value, low.error)

/-- The difference of two rounded results and their errors. -/
def ofDifference (s t : Rounded) : Expansion :=
  let (r, first) := subDouble s t.error
  let (r, second) := subDouble r t.value
  [first, second, r.error, r.value]

/-- The expansion of `a * b - c * d`. -/
def ofProducts (a b c d : Float) : Expansion := ofDifference (Rounded.mul a b) (Rounded.mul c d)

/-- The components of two expansions in the order of their magnitudes. -/
def merge (e f : Expansion) : Expansion :=
  List.merge e f fun a b => decide (a < b) == decide (-a < b)

/-- Adds components to a sum; errors that are not zero are components of the result. -/
def sumFrom (sum : Float) : Expansion → Expansion
  | [] => [sum]
  | c :: rest =>
    let r := Rounded.add sum c
    if r.error == 0.0 then sumFrom r.value rest else r.error :: sumFrom r.value rest

def add (e f : Expansion) : Expansion :=
  match merge e f with
  | [] => []
  | c :: rest => sumFrom c rest

/-- The rounded sum of the components. -/
def estimate (e : Expansion) : Float := e.foldl (· + ·) 0.0

/-- The greatest component, whose sign is the sign of the sum. -/
def leading (e : Expansion) : Float := (e.reverse.find? fun c => !(c == 0.0)).getD 0.0

end Expansion

end Geocast
