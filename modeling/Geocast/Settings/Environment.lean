import Geocast.Settings.Value

/-!
# Settings from the environment

A variable whose name begins with `geobroker_`, in any case, is a setting; two underscores in the
rest of its name separate table and key.
-/
namespace Geocast.Environment

/-- The small letter of a character, where that is an ASCII letter: of the letters A to Z and of the
Kelvin sign. -/
def smallLetter (c : Char) : Char := if c.toNat = 0x212A then 'k' else c.toLower

/-- How the names of variables begin that are settings. -/
def marker : List Char := ['g', 'e', 'o', 'b', 'r', 'o', 'k', 'e', 'r', '_']

/-- A name with a dot for every two underscores. -/
def dotted : List Char → List Char
  | '_' :: '_' :: rest => '.' :: dotted rest
  | c :: rest => c :: dotted rest
  | [] => []

/-- The path that a variable sets, if it is a setting. -/
def keyOf? (name : String) : Option String :=
  let lower := name.toList.map smallLetter
  if marker.isPrefixOf lower then some (String.ofList (dotted (lower.drop marker.length))) else none

/-- The value of a text: a truth value, a whole number, a double, or else the text. -/
def valueOf (s : String) : Setting :=
  let word := s.map Char.toLower
  if word == "true" then .flag true
  else if word == "false" then .flag false
  else
    match (Setting.intOfText? s).filter Setting.fits with
    | some n => .whole n
    | none =>
      match DecimalText.parse? s with
      | some x => .real x
      | none => .text s

def settings (env : List (String × String)) : Setting.Table :=
  env.filterMap fun (name, value) => (keyOf? name).map fun key => (key, valueOf value)

end Geocast.Environment
