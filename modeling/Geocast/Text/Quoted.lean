import Geocast.Text.Hidden
import Geocast.Number.Decimal

/-!
# Quoted text in listings

A text in double quotes as listings and log lines show it: quotes and backslashes are escaped, and
characters that do not show as themselves are written as escapes or as their code.
-/
namespace Geocast.Text

/-- A character inside quotes, as listings show it. -/
def shownChar (c : Char) : String :=
  if c == '"' then "\\\""
  else if c == '\\' then "\\\\"
  else if c == '\n' then "\\n"
  else if c == '\r' then "\\r"
  else if c == '\t' then "\\t"
  else if c.toNat = 0 then "\\0"
  else if isHidden c then
    "\\u\x7b" ++ String.ofList (Nat.toDigits 16 c.toNat) ++ "\x7d"
  else c.toString

/-- A text in quotes, as listings show it. -/
def shown (s : String) : String := "\"" ++ String.join (s.toList.map shownChar) ++ "\""

end Geocast.Text
