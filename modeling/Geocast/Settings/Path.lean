import Geocast.Settings.Value

/-!
# Paths to settings

A key of a settings file or of the environment may be a path into the settings: the key of a table,
then keys behind dots and places of lists in brackets, as in `areas[0].port`.

* `Setting.pathOf`: the path that a text names. A text that is no path is a key as a whole.
* `Setting.modify`: changes the value at the end of a path. What stands in the way gives way to a
  table or a list, so that every path has an end.
* `Setting.ofLayers`: the settings of layers, later ones over earlier ones.
-/
namespace Geocast.Setting

/-- A step of a path: to a key of a table, or to a place of a list. The first place has number zero;
negative numbers count back from the end. -/
inductive Step where
  | key (name : String)
  | place (number : Int)
  deriving DecidableEq, Repr

/-! ## Reading paths -/

/-- The characters of a key in a path. -/
def isKeyChar (c : Char) : Bool := c.isAlphanum || c == '_' || c == '-'

/-- A key in a path, and what follows it. -/
def keyOf? (cs : List Char) : Option (String × List Char) :=
  let name := cs.takeWhile isKeyChar
  if name.isEmpty then none else some (String.ofList name, cs.dropWhile isKeyChar)

/-- The number of a place: digits that may have a minus, of 64 bits, with blanks around them. -/
def placeOf? (cs : List Char) : Option Int :=
  let isBlank (c : Char) : Bool := c == ' ' || c == '\t'
  let body := ((cs.dropWhile isBlank).reverse.dropWhile isBlank).reverse
  if body.head? == some '+' then none else (intOfText? (String.ofList body)).filter fits

/-- The steps behind the first key; each takes at least one character. -/
def stepsOf? : Nat → List Char → Option (List Step)
  | _, [] => some []
  | 0, _ => none
  | fuel + 1, '.' :: rest => do
    let (name, rest) ← keyOf? rest
    pure (.key name :: (← stepsOf? fuel rest))
  | fuel + 1, '[' :: rest => do
    let number ← placeOf? (rest.takeWhile (· != ']'))
    match rest.dropWhile (· != ']') with
    | ']' :: rest => pure (.place number :: (← stepsOf? fuel rest))
    | _ => none
  | _, _ => none

/-- The path of a key; a text that is no path is a key as a whole. -/
def pathOf (text : String) : List Step :=
  let path? := do
    let (name, rest) ← keyOf? text.toList
    pure (Step.key name :: (← stepsOf? rest.length rest))
  path?.getD [.key text]

/-! ## Following paths -/

/-- The items of a list; a value that is no list has none. -/
def items : Setting → List Setting
  | list vs => vs
  | _ => []

/-- The items with the place of a number among them, and that place as a natural number. Missing
places are unset: those before it if it lies behind the end, those from it on if it lies before the
beginning. -/
def withPlace (vs : List Setting) (number : Int) : List Setting × Nat :=
  if 0 ≤ number then (vs ++ List.replicate (number.toNat + 1 - vs.length) unset, number.toNat)
  else if number.natAbs ≤ vs.length then (vs, vs.length - number.natAbs)
  else (List.replicate (number.natAbs - vs.length) unset ++ vs, 0)

/-- Changes the value at the end of a path. -/
def modify (change : Setting → Setting) : List Step → Setting → Setting
  | [], v => change v
  | .key name :: rest, v =>
    table (put name (modify change rest ((get? name v.entries).getD unset)) v.entries)
  | .place number :: rest, v =>
    let (vs, i) := withPlace v.items number
    list (vs.modify i (modify change rest))

/-- A layer over the layers before it. The keys of a layer may be paths. -/
def addLayer (below layer : Table) : Table :=
  layer.foldl (fun t (key, v) => (modify (overlay · v) (pathOf key) (table t)).entries) below

/-- All layers, the latest over the earlier ones. -/
def ofLayers (layers : List Table) : Table := layers.foldl addLayer []

end Geocast.Setting
