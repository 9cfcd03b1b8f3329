import Geocast.Json.Basic

/-!
# Writing JSON

One line without blanks, members in their order. Doubles are written with the shortest digits that
read back, with a point or an exponent, so that they read as doubles again; NaN and the infinities
have no JSON form and are written as `null`, and so are parts of a value that are at fault.
-/
namespace Geocast.Json

/-! ## Numbers -/

/-- A double, positional from a hundred-thousandth up to `10 ^ 16`. -/
def floatText (x : Float) : String := if x.isFinite then Decimal.pointed (-4) x else "null"

def intText (n : Int) : String := (if n < 0 then "-" else "") ++ Decimal.digitsText n.natAbs

/-! ## Text -/

def hexDigit (n : Nat) : Char := if n < 10 then Char.ofNat (48 + n) else Char.ofNat (87 + n)

/-- A character inside quotes: a quote, a backslash and control characters are escaped. -/
def quotedChar (c : Char) : List Char :=
  if c == '"' then ['\\', '"']
  else if c == '\\' then ['\\', '\\']
  else if c.toNat < 32 then
    if c == '\n' then ['\\', 'n']
    else if c == '\r' then ['\\', 'r']
    else if c == '\t' then ['\\', 't']
    else if c.toNat = 8 then ['\\', 'b']
    else if c.toNat = 12 then ['\\', 'f']
    else ['\\', 'u', '0', '0', hexDigit (c.toNat / 16), hexDigit (c.toNat % 16)]
  else [c]

def quoted (s : String) : String :=
  "\"" ++ String.ofList (s.toList.flatMap quotedChar) ++ "\""

/-! ## Values -/

mutual
def render : Json → String
  | .null => "null"
  | .bool b => if b then "true" else "false"
  | .int n => intText n
  | .float x => floatText x
  | .str s => quoted s
  | .arr items => "[" ++ ",".intercalate (renderItems items) ++ "]"
  | .obj members => "\x7b" ++ ",".intercalate (renderMembers members) ++ "\x7d"
  | .flawed | .broken => "null"
  | .nameless value => render value
def renderItems : List Json → List String
  | [] => []
  | item :: rest => render item :: renderItems rest
def renderMembers : List (String × Json) → List String
  | [] => []
  | (name, value) :: rest => (quoted name ++ ":" ++ render value) :: renderMembers rest
end

end Geocast.Json
