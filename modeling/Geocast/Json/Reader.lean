import Geocast.Json.Basic

/-!
# Reading JSON

A strict reader: no comments, no trailing commas, no leading zeros, no control characters inside
text. Every text has a value; where it is no JSON, reading ends with a part that is `broken`.
`readFirst` gives the value at the start of a text and what follows it, if it is intact; `read` asks
that only blanks follow.

All functions take the rest of the text as a list of characters. The mutual recursion of values,
items and members counts down a budget of steps; the length of the text is enough, since every
step consumes a character.
-/
namespace Geocast.Json

/-- The blanks that may stand between tokens. -/
def isBlank (c : Char) : Bool := c == ' ' || c == '\n' || c == '\t' || c == '\r'

def skipBlanks (cs : List Char) : List Char := cs.dropWhile isBlank

/-! ## Numbers -/

/-- A number token: its sign, the digits before and after the point, and the exponent if one is
written. -/
structure NumberToken where
  negative : Bool
  whole : List Char
  fraction : Option (List Char)
  exponent : Option Int

/-- The value of a number token. Whole numbers of at most 64 bits are integers, except `-0`. -/
def NumberToken.value (t : NumberToken) : Json :=
  let x := Decimal.toFloat t.negative
    (Decimal.ofParts t.whole (t.fraction.getD []) (t.exponent.getD 0))
  let double := if x.isInf then Json.flawed else .float x
  match t.fraction, t.exponent with
  | none, none =>
    let n := Decimal.ofDigits t.whole
    if t.negative then if n ≠ 0 ∧ n ≤ 0x8000000000000000 then .int (-n) else double
    else if n < 0x10000000000000000 then .int n else double
  | _, _ => double

/-- One or more digits, and what follows them. -/
def digits? (cs : List Char) : Option (List Char × List Char) :=
  let found := cs.takeWhile Char.isDigit
  if found.isEmpty then none else some (found, cs.dropWhile Char.isDigit)

/-- The digits before the point: a single zero, or digits that do not start with one. -/
def wholeDigits? : List Char → Option (List Char × List Char)
  | '0' :: rest => if (rest.takeWhile Char.isDigit).isEmpty then some (['0'], rest) else none
  | cs => digits? cs

/-- The digits after a point, if a point follows; a point without digits is refused. -/
def fraction? : List Char → Option (Option (List Char) × List Char)
  | '.' :: rest => (digits? rest).map fun (ds, rest) => (some ds, rest)
  | cs => some (none, cs)

/-- The exponent, if one follows; an exponent without digits is refused. -/
def exponent? (cs : List Char) : Option (Option Int × List Char) :=
  match cs with
  | c :: rest =>
    if c == 'e' || c == 'E' then
      let (negative, rest) :=
        match rest with
        | '-' :: more => (true, more)
        | '+' :: more => (false, more)
        | _ => (false, rest)
      (digits? rest).map fun (ds, rest) =>
        let n : Int := Decimal.ofDigits ds
        (some (if negative then -n else n), rest)
    else some (none, cs)
  | [] => some (none, [])

/-- A number, and what follows it. -/
def number? (cs : List Char) : Option (Json × List Char) := do
  let (negative, cs) :=
    match cs with
    | '-' :: rest => (true, rest)
    | _ => (false, cs)
  let (whole, cs) ← wholeDigits? cs
  let (fraction, cs) ← fraction? cs
  let (exponent, cs) ← exponent? cs
  pure (NumberToken.value ⟨negative, whole, fraction, exponent⟩, cs)

/-! ## Text -/

def hexDigit? (c : Char) : Option Nat :=
  if c.isDigit then some (c.toNat - '0'.toNat)
  else if 'a' ≤ c ∧ c ≤ 'f' then some (c.toNat - 'a'.toNat + 10)
  else if 'A' ≤ c ∧ c ≤ 'F' then some (c.toNat - 'A'.toNat + 10)
  else none

/-- The value of four hexadecimal digits, and what follows them. -/
def fourHex? : List Char → Option (Nat × List Char)
  | a :: b :: c :: d :: rest => do
    let a ← hexDigit? a
    let b ← hexDigit? b
    let c ← hexDigit? c
    let d ← hexDigit? d
    pure (((a * 16 + b) * 16 + c) * 16 + d, rest)
  | _ => none

/-- Whether a code is the first half of a surrogate pair. -/
def isHigh (n : Nat) : Bool := 0xD800 ≤ n && n < 0xDC00

/-- Whether a code is the second half of a surrogate pair. -/
def isLow (n : Nat) : Bool := 0xDC00 ≤ n && n < 0xE000

def ofPair (high low : Nat) : Char :=
  Char.ofNat (0x10000 + (high - 0xD800) * 0x400 + (low - 0xDC00))

/-- The character after a backslash, other than a code. -/
def escaped? : Char → Option Char
  | '"' => some '"'
  | '\\' => some '\\'
  | '/' => some '/'
  | 'b' => some (Char.ofNat 8)
  | 'f' => some (Char.ofNat 12)
  | 'n' => some '\n'
  | 'r' => some '\r'
  | 't' => some '\t'
  | _ => none

/-- The characters of a text up to its closing quote, latest first, and what follows; no characters
when a code is half of a surrogate pair. -/
def textBody : Nat → Option (List Char) → List Char → Option (Option (List Char) × List Char)
  | 0, _, _ => none
  | _ + 1, _, [] => none
  | _ + 1, acc, '"' :: rest => some (acc, rest)
  | fuel + 1, acc, '\\' :: 'u' :: rest => do
    let (n, rest) ← fourHex? rest
    if isHigh n then
      match rest with
      | '\\' :: 'u' :: more =>
        let (m, after) ← fourHex? more
        if isLow m then textBody fuel (acc.map (ofPair n m :: ·)) after
        else textBody fuel none rest
      | _ => textBody fuel none rest
    else if isLow n then textBody fuel none rest
    else textBody fuel (acc.map (Char.ofNat n :: ·)) rest
  | fuel + 1, acc, '\\' :: c :: rest => do
    let c ← escaped? c
    textBody fuel (acc.map (c :: ·)) rest
  | fuel + 1, acc, c :: rest =>
    if c.toNat < 32 || c == '\\' then none else textBody fuel (acc.map (c :: ·)) rest

/-- The text after an opening quote, and what follows its closing quote. -/
def text? (cs : List Char) : Option (Option String × List Char) :=
  (textBody (cs.length + 1) (some []) cs).map fun (found, rest) =>
    (found.map fun acc => String.ofList acc.reverse, rest)

/-- The name of a member with its colon, and the text of its value. -/
def name? : List Char → Option (Option String × List Char)
  | '"' :: rest => do
    let (name, rest) ← text? rest
    match skipBlanks rest with
    | ':' :: rest => pure (name, skipBlanks rest)
    | _ => none
  | _ => none

/-! ## Values -/

/-- What follows the given word, if the text starts with it. -/
def word? (w : List Char) (cs : List Char) : Option (List Char) :=
  if w.isPrefixOf cs then some (cs.drop w.length) else none

/-- A reader of values gives a result, and what follows it if the result is intact. -/
abbrev Reading (α : Type) := α × Option (List Char)

/-- A value without parts that was read, or else a broken one. -/
def leaf : Option (Json × List Char) → Reading Json
  | some (v, rest) => (v, some rest)
  | none => (.broken, none)

mutual
/-- The value at the start of a text without leading blanks, and what follows it. -/
def value : Nat → List Char → Reading Json
  | 0, _ => (.broken, none)
  | _ + 1, [] => (.broken, none)
  | fuel + 1, c :: rest =>
    if c == '{' then
      match skipBlanks rest with
      | '}' :: rest => (.obj [], some rest)
      | cs =>
        let (ms, after) := members fuel cs
        (.obj ms, after)
    else if c == '[' then
      match skipBlanks rest with
      | ']' :: rest => (.arr [], some rest)
      | cs =>
        let (vs, after) := items fuel cs
        (.arr vs, after)
    else leaf (
      if c == '"' then (text? rest).map fun (s, rest) => ((s.map Json.str).getD .flawed, rest)
      else if c == 't' then (word? ['r', 'u', 'e'] rest).map fun rest => (.bool true, rest)
      else if c == 'f' then (word? ['a', 'l', 's', 'e'] rest).map fun rest => (.bool false, rest)
      else if c == 'n' then (word? ['u', 'l', 'l'] rest).map fun rest => (.null, rest)
      else number? (c :: rest))
/-- The items of an array up to its closing bracket. -/
def items : Nat → List Char → Reading (List Json)
  | 0, _ => ([.broken], none)
  | fuel + 1, cs =>
    let (v, after) := value fuel cs
    match after.map skipBlanks with
    | some (',' :: rest) =>
      let (vs, after) := items fuel (skipBlanks rest)
      (v :: vs, after)
    | some (']' :: rest) => ([v], some rest)
    | some _ => ([v, .broken], none)
    | none => ([v], none)
/-- The members of an object up to its closing brace. -/
def members : Nat → List Char → Reading (List (String × Json))
  | 0, _ => ([("", .broken)], none)
  | fuel + 1, cs =>
    match name? cs with
    | none => ([("", .broken)], none)
    | some (name, cs) =>
      let (v, after) := value fuel cs
      let m := match name with
        | some name => (name, v)
        | none => ("", .nameless v)
      match after.map skipBlanks with
      | some (',' :: rest) =>
        let (ms, after) := members fuel (skipBlanks rest)
        (m :: ms, after)
      | some ('}' :: rest) => ([m], some rest)
      | some _ => ([m, ("", .broken)], none)
      | none => ([m], none)
end

/-- The value at the start of a text, and what follows it. -/
def readFirst (s : String) : Reading Json :=
  let cs := s.toList
  value (cs.length + 1) (skipBlanks cs)

/-- Whether nothing but blanks follows. -/
def isEnd (after : Option (List Char)) : Bool := after.any fun rest => (skipBlanks rest).isEmpty

/-- The value of a text that holds one value and blanks. -/
def read (s : String) : Option Json :=
  let (v, after) := readFirst s
  if isEnd after then some v else none

end Geocast.Json
