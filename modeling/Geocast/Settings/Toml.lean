import Geocast.Settings.Moment
import Geocast.Settings.Value

/-!
# Settings files in TOML

`Toml.read` gives the settings of a text, or nothing when the text is not TOML 1.1. A date or a time
is read as its text.

A line sets a key of the table that the last header names, or is such a header. `Entry` remembers
how a table came about, because a table may be named by one header only, and dotted keys add to no
table that a header or a value made.

Readers take characters from the front of a list. Values count down a budget of steps; the length of
the text is enough, since every step consumes a character. Lists and tables as values may stand
inside each other up to `nesting` levels.
-/
namespace Geocast.Toml

/-! ## Building tables -/

/-- How a table came about: by its own header, on the way of a longer header, or by dotted keys. -/
inductive Origin where
  | header
  | passed
  | keys
  deriving DecidableEq

/-- What is known of a key so far. -/
inductive Entry where
  | value (v : Setting)
  | table (origin : Origin) (entries : List (String × Entry))
  | tables (earlier : List Setting) (entries : List (String × Entry))

abbrev Entries := List (String × Entry)

def find? (key : String) : Entries → Option Entry
  | [] => none
  | (k, e) :: rest => if k == key then some e else find? key rest

def put (key : String) (e : Entry) : Entries → Entries
  | [] => [(key, e)]
  | (k, old) :: rest => if k == key then (k, e) :: rest else (k, old) :: put key e rest

mutual
def Entry.setting : Entry → Setting
  | .value v => v
  | .table _ entries => .table (settings entries)
  | .tables earlier entries => .list (earlier ++ [.table (settings entries)])
def settings : Entries → Setting.Table
  | [] => []
  | (key, e) :: rest => (key, e.setting) :: settings rest
end

/-- Changes the table at the end of a path of headers; of tables in a list, the last one. -/
def within (change : Entries → Option Entries) : List String → Entries → Option Entries
  | [], entries => change entries
  | key :: rest, entries =>
    match find? key entries with
    | none => do pure (put key (.table .passed (← within change rest [])) entries)
    | some (.table origin inner) => do
      pure (put key (.table origin (← within change rest inner)) entries)
    | some (.tables earlier inner) => do
      pure (put key (.tables earlier (← within change rest inner)) entries)
    | some (.value _) => none

/-- Names a table by a header. -/
def openTable (key : String) (entries : Entries) : Option Entries :=
  match find? key entries with
  | none => some (put key (.table .header []) entries)
  | some (.table .passed inner) => some (put key (.table .header inner) entries)
  | some _ => none

/-- Adds a table to a list of tables by a header. -/
def openItem (key : String) (entries : Entries) : Option Entries :=
  match find? key entries with
  | none => some (put key (.tables [] []) entries)
  | some (.tables earlier inner) =>
    some (put key (.tables (earlier ++ [.table (settings inner)]) []) entries)
  | some _ => none

/-- Whether a table may be passed by the rest of a dotted key. Tables that were only passed by a
header may be passed again, but they get no key themselves. -/
def Origin.admits (rest : List String) : Origin → Bool
  | .header => false
  | .passed => 1 < rest.length
  | .keys => true

/-- Sets a key, dotted or not. A dotted key leads through the last table of a list of tables, but
not straight to a key of it. -/
def assign (v : Setting) : List String → Entries → Option Entries
  | [], _ => none
  | [key], entries =>
    match find? key entries with
    | none => some (put key (.value v) entries)
    | some _ => none
  | key :: rest, entries =>
    match find? key entries with
    | none => do pure (put key (.table .keys (← assign v rest [])) entries)
    | some (.table origin inner) =>
      if origin.admits rest then do
        pure (put key (.table origin (← assign v rest inner)) entries)
      else none
    | some (.tables earlier inner) =>
      if Origin.passed.admits rest then do
        pure (put key (.tables earlier (← assign v rest inner)) entries)
      else none
    | some (.value _) => none

/-! ## Characters -/

/-- A reader gives a result and what follows it. -/
abbrev Reader (α : Type) := List Char → Option (α × List Char)

def isBlank (c : Char) : Bool := c == ' ' || c == '\t'

def skipBlanks (cs : List Char) : List Char := cs.dropWhile isBlank

/-- Characters that stand neither in text nor in comments. -/
def isControl (c : Char) : Bool := (c.toNat < 32 && c != '\t') || c.toNat = 127

/-- What follows the end of a line, if the line ends here. -/
def newline? : List Char → Option (List Char)
  | '\n' :: rest => some rest
  | '\r' :: '\n' :: rest => some rest
  | _ => none

/-- The text after a comment, if there is one; a comment runs to the end of the line. -/
def skipComment? : List Char → Option (List Char)
  | '#' :: rest =>
    let line := rest.takeWhile fun c => c != '\n'
    let after := rest.dropWhile fun c => c != '\n'
    if after.isEmpty then if line.any isControl then none else some []
    else
      let line := if line.getLast? == some '\r' then line.dropLast else line
      if line.any isControl then none else some after
  | cs => some cs

/-- The text after the rest of a line that holds nothing more. -/
def endLine? (cs : List Char) : Option (List Char) := do
  let rest ← skipComment? (skipBlanks cs)
  if rest.isEmpty then pure rest else newline? rest

/-- The text after blanks, line ends and comments. -/
def skipLines? : Nat → List Char → Option (List Char)
  | 0, cs => some cs
  | fuel + 1, cs => do
    let rest ← skipComment? (skipBlanks cs)
    match newline? rest with
    | some rest => skipLines? fuel rest
    | none => pure rest

/-! ## Text -/

def hexDigit? (c : Char) : Option Nat :=
  if c.isDigit then some (c.toNat - '0'.toNat)
  else if 'a' ≤ c ∧ c ≤ 'f' then some (c.toNat - 'a'.toNat + 10)
  else if 'A' ≤ c ∧ c ≤ 'F' then some (c.toNat - 'A'.toNat + 10)
  else none

/-- The character with the given number of hexadecimal digits as its code. -/
def code? (digits : Nat) : Reader Char := fun cs => do
  let found := cs.take digits
  if found.length = digits then
    let n ← found.foldlM (fun n c => (hexDigit? c).map (16 * n + ·)) 0
    if n.isValidChar then pure (Char.ofNat n, cs.drop digits) else none
  else none

/-- The character after a backslash. -/
def escape? : Reader Char
  | 'e' :: rest => some (Char.ofNat 27, rest)
  | 'b' :: rest => some (Char.ofNat 8, rest)
  | 't' :: rest => some ('\t', rest)
  | 'n' :: rest => some ('\n', rest)
  | 'f' :: rest => some (Char.ofNat 12, rest)
  | 'r' :: rest => some ('\r', rest)
  | '"' :: rest => some ('"', rest)
  | '\\' :: rest => some ('\\', rest)
  | 'x' :: rest => code? 2 rest
  | 'u' :: rest => code? 4 rest
  | 'U' :: rest => code? 8 rest
  | _ => none

/-- The rest of a text in double quotes on one line, latest characters first. -/
def basic? : Nat → List Char → Reader (List Char)
  | 0, _, _ => none
  | _ + 1, _, [] => none
  | _ + 1, acc, '"' :: rest => some (acc, rest)
  | fuel + 1, acc, '\\' :: rest => do
    let (c, rest) ← escape? rest
    basic? fuel (c :: acc) rest
  | fuel + 1, acc, c :: rest => if isControl c then none else basic? fuel (c :: acc) rest

/-- The rest of a text in single quotes on one line, latest characters first. -/
def literal? : List Char → Reader (List Char)
  | _, [] => none
  | acc, '\'' :: rest => some (acc, rest)
  | acc, c :: rest => if isControl c then none else literal? (c :: acc) rest

/-- Up to two quotes may stand directly before the three that close a text of several lines. -/
def closing (quote : Char) (acc : List Char) (rest : List Char) : List Char × List Char :=
  match rest with
  | a :: b :: more =>
    if a == quote && b == quote then (quote :: quote :: acc, more)
    else if a == quote then (quote :: acc, b :: more)
    else (acc, rest)
  | [a] => if a == quote then (quote :: acc, []) else (acc, rest)
  | [] => (acc, [])

def skipSpace : List Char → List Char
  | '\r' :: '\n' :: rest => skipSpace rest
  | c :: rest => if isBlank c || c == '\n' then skipSpace rest else c :: rest
  | [] => []

/-- The text after a backslash at the end of a line, which joins the line to the next one that is
not blank. -/
def joined? (cs : List Char) : Option (List Char) := (newline? (skipBlanks cs)).map skipSpace

/-- The rest of a text of several lines, latest characters first. -/
def multiline? (quote : Char) : Nat → List Char → Reader (List Char)
  | 0, _, _ => none
  | _ + 1, _, [] => none
  | fuel + 1, acc, c :: rest =>
    if c == quote && [quote, quote].isPrefixOf rest then some (closing quote acc (rest.drop 2))
    else if c == '\\' && quote == '"' then
      match joined? rest with
      | some rest => multiline? quote fuel acc rest
      | none => do
        let (e, rest) ← escape? rest
        multiline? quote fuel (e :: acc) rest
    else
      match newline? (c :: rest) with
      | some after => multiline? quote fuel ('\n' :: acc) after
      | none => if isControl c then none else multiline? quote fuel (c :: acc) rest

/-- The text after an opening quote of either kind. -/
def quoted? (quote : Char) (cs : List Char) : Option (String × List Char) := do
  let fuel := cs.length + 1
  let (acc, rest) ←
    if [quote, quote].isPrefixOf cs then
      let body := cs.drop 2
      multiline? quote fuel [] ((newline? body).getD body)
    else if quote == '"' then basic? fuel [] cs
    else literal? [] cs
  pure (String.ofList acc.reverse, rest)

/-! ## Keys -/

/-- The characters of a key without quotes. -/
def isBare (c : Char) : Bool := c.isAlphanum || c == '_' || c == '-'

def key? : Reader String
  | '"' :: rest => (basic? (rest.length + 1) [] rest).map fun (acc, rest) =>
    (String.ofList acc.reverse, rest)
  | '\'' :: rest => (literal? [] rest).map fun (acc, rest) => (String.ofList acc.reverse, rest)
  | cs =>
    let found := cs.takeWhile isBare
    if found.isEmpty then none else some (String.ofList found, cs.dropWhile isBare)

/-- Keys with dots between them. -/
def path? : Nat → Reader (List String)
  | 0, _ => none
  | fuel + 1, cs => do
    let (key, rest) ← key? (skipBlanks cs)
    match skipBlanks rest with
    | '.' :: rest =>
      let (keys, rest) ← path? fuel rest
      pure (key :: keys, rest)
    | rest => pure ([key], rest)

/-! ## Numbers, truth values and dates -/

/-- The digits of a number without the underscores, each of which must stand between digits. -/
def digits? (isDigit : Char → Bool) : List Char → Option (List Char)
  | [] => none
  | [c] => if isDigit c then some [c] else none
  | c :: '_' :: rest => if isDigit c then (digits? isDigit rest).map (c :: ·) else none
  | c :: rest => if isDigit c then (digits? isDigit rest).map (c :: ·) else none

/-- The digits of a decimal number without a leading zero. -/
def decimal? (cs : List Char) : Option (List Char) :=
  match digits? Char.isDigit cs with
  | some ('0' :: _ :: _) => none
  | found => found

def sign : List Char → Bool × List Char
  | '-' :: rest => (true, rest)
  | '+' :: rest => (false, rest)
  | cs => (false, cs)

/-- A whole number in another base, by its marker. -/
def based? : List Char → Option Nat
  | '0' :: 'x' :: rest => do
    (← digits? (fun c => (hexDigit? c).isSome) rest).foldlM
      (fun n c => (hexDigit? c).map (16 * n + ·)) 0
  | '0' :: 'o' :: rest => do
    pure ((← digits? (fun c => '0' ≤ c && c ≤ '7') rest).foldl
      (fun n c => 8 * n + (c.toNat - '0'.toNat)) 0)
  | '0' :: 'b' :: rest => do
    pure ((← digits? (fun c => c == '0' || c == '1') rest).foldl
      (fun n c => 2 * n + (c.toNat - '0'.toNat)) 0)
  | _ => none

/-- A whole number of 64 bits. -/
def whole? (cs : List Char) : Option Int := do
  let n : Int ←
    match based? cs with
    | some n => pure (n : Int)
    | none =>
      let (negative, body) := sign cs
      let n : Int := Decimal.ofDigits (← decimal? body)
      pure (if negative then -n else n)
  if -0x8000000000000000 ≤ n ∧ n < 0x8000000000000000 then pure n else none

/-- An exponent with its sign. -/
def exponent? (cs : List Char) : Option Int := do
  let (negative, body) := sign cs
  let n : Int := Decimal.ofDigits (← digits? Char.isDigit body)
  pure (if negative then -n else n)

/-- A number with a point or an exponent that is not too large for a double, or an infinity, or
NaN. -/
def real? (cs : List Char) : Option Float := do
  let (negative, body) := sign cs
  let isMark (c : Char) : Bool := c == 'e' || c == 'E'
  if body == ['i', 'n', 'f'] then
    pure (if negative then -Binary64.infinity else Binary64.infinity)
  else if body == ['n', 'a', 'n'] then pure Binary64.nan
  else
    let mantissa := body.takeWhile (!isMark ·)
    let exponent ←
      match body.dropWhile (!isMark ·) with
      | [] => pure 0
      | _ :: rest => exponent? rest
    let whole ← decimal? (mantissa.takeWhile (· != '.'))
    let fraction ←
      match mantissa.dropWhile (· != '.') with
      | [] => pure []
      | _ :: rest => digits? Char.isDigit rest
    let x := Decimal.toFloat negative (Decimal.ofParts whole fraction exponent)
    if x.isInf || body.all (fun c => c.isDigit || c == '_') then none else pure x

/-- Whether the characters are a date. -/
def isDate (cs : List Char) : Bool := (Moment.date? cs).any fun found => found.2.isEmpty

/-- The characters of a plain value. -/
def isPlain (c : Char) : Bool := c.isAlphanum || ['+', '-', '.', '_', ':'].contains c

/-- The characters of a plain value, and what follows. A date may have its time behind a blank. -/
def plain (cs : List Char) : List Char × List Char :=
  let first := cs.takeWhile isPlain
  let rest := cs.dropWhile isPlain
  match rest with
  | ' ' :: more =>
    if isDate first && (more.head?.map Char.isDigit).getD false then
      (first ++ ' ' :: more.takeWhile isPlain, more.dropWhile isPlain)
    else (first, rest)
  | _ => (first, rest)

/-- The value of the characters of a plain value. -/
def plainValue? (cs : List Char) : Option Setting :=
  if cs == ['t', 'r', 'u', 'e'] then some (.flag true)
  else if cs == ['f', 'a', 'l', 's', 'e'] then some (.flag false)
  else
    match whole? cs, real? cs with
    | some n, _ => some (.whole n)
    | none, some x => some (.real x)
    | none, none => (Moment.read? cs).map fun m => .text m.display

/-! ## Values -/

/-- How many lists and tables may stand inside each other. -/
def nesting : Nat := 80

mutual
/-- A value with at most `room` levels of lists and tables, and what follows it. -/
def value? (room : Nat) : Nat → Reader Setting
  | 0, _ => none
  | _ + 1, [] => none
  | fuel + 1, c :: rest =>
    if c == '"' || c == '\'' then (quoted? c rest).map fun (s, rest) => (.text s, rest)
    else if c == '[' then
      if room = 0 then none
      else (items? (room - 1) fuel rest).map fun (vs, rest) => (.list vs, rest)
    else if c == '{' then
      if room = 0 then none
      else (members? (room - 1) fuel [] rest).map fun (entries, rest) =>
        (.table (settings entries), rest)
    else
      let (found, rest) := plain (c :: rest)
      (plainValue? found).map fun v => (v, rest)
/-- The items of a list up to its closing bracket; a comma may stand before it. -/
def items? (room : Nat) : Nat → Reader (List Setting)
  | 0, _ => none
  | fuel + 1, cs => do
    match ← skipLines? (cs.length + 1) cs with
    | ']' :: rest => pure ([], rest)
    | cs =>
      let (v, rest) ← value? room fuel cs
      match ← skipLines? (rest.length + 1) rest with
      | ',' :: rest =>
        let (vs, rest) ← items? room fuel rest
        pure (v :: vs, rest)
      | ']' :: rest => pure ([v], rest)
      | _ => none
/-- The members of a table up to its closing brace; a comma may stand before it. -/
def members? (room : Nat) : Nat → Entries → Reader Entries
  | 0, _, _ => none
  | fuel + 1, entries, cs => do
    match ← skipLines? (cs.length + 1) cs with
    | '}' :: rest => pure (entries, rest)
    | cs =>
      let (path, rest) ← path? (cs.length + 1) cs
      match ← skipLines? (rest.length + 1) rest with
      | '=' :: rest =>
        let (v, rest) ← value? room fuel (← skipLines? (rest.length + 1) rest)
        let entries ← assign v path entries
        match ← skipLines? (rest.length + 1) rest with
        | ',' :: rest => members? room fuel entries rest
        | '}' :: rest => pure (entries, rest)
        | _ => none
      | _ => none
end

/-! ## Documents -/

/-- What has been read: all entries, and the path of the table that lines add to. -/
structure Document where
  entries : Entries
  current : List String

def Document.header? (d : Document) (change : String → Entries → Option Entries)
    (path : List String) : Option Document := do
  let key ← path.getLast?
  pure ⟨← within (change key) path.dropLast d.entries, path⟩

/-- Sets a key in the current table. -/
def Document.set? (d : Document) (path : List String) (v : Setting) : Option Document := do
  pure { d with entries := ← within (assign v path) d.current d.entries }

/-- Reads a header or a key with its value. -/
def statement? (d : Document) (cs : List Char) : Option (Document × List Char) := do
  let fuel := cs.length + 1
  match cs with
  | '[' :: '[' :: rest =>
    match ← path? fuel rest with
    | (path, ']' :: ']' :: rest) => pure (← d.header? openItem path, rest)
    | _ => none
  | '[' :: rest =>
    match ← path? fuel rest with
    | (path, ']' :: rest) => pure (← d.header? openTable path, rest)
    | _ => none
  | _ =>
    match ← path? fuel cs with
    | (path, '=' :: rest) =>
      let (v, rest) ← value? nesting fuel (skipBlanks rest)
      pure (← d.set? path v, rest)
    | _ => none

/-- Reads the lines of a document. -/
def document? : Nat → Document → List Char → Option Document
  | 0, _, _ => none
  | fuel + 1, d, cs => do
    let cs ← skipLines? (cs.length + 1) cs
    if cs.isEmpty then pure d
    else
      let (d, rest) ← statement? d cs
      document? fuel d (← endLine? rest)

/-- The text after a byte order mark, if there is one. -/
def skipMark (cs : List Char) : List Char :=
  if cs.head? == some (Char.ofNat 0xFEFF) then cs.drop 1 else cs

/-- The settings of a text. There may be a byte order mark before the document and one before the
text as a whole. -/
def read (s : String) : Option Setting.Table :=
  let cs := skipMark (skipMark s.toList)
  (document? (cs.length + 2) ⟨[], []⟩ cs).map fun d => settings d.entries

end Geocast.Toml
