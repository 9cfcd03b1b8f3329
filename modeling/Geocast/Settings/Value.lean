import Geocast.Number.DecimalText

/-!
# Values of settings

What a settings file or an environment variable can say. Values are read freely: a number may be
written as text and a text as a number.

* `natural?`, `text?`, `fields?`, `list?`: a value as what a setting needs. A place that nothing was
  written to is none of these.
* `overlay`: later settings over earlier ones, table by table; a list or a plain value replaces what
  was there.
-/
namespace Geocast

/-- A value in settings. Places of a list that come about only because a later place is set are
`unset`. -/
inductive Setting where
  | unset
  | flag (value : Bool)
  | whole (value : Int)
  | real (value : Float)
  | text (value : String)
  | list (items : List Setting)
  | table (es : List (String × Setting))

namespace Setting

/-- The entries of a table, each key once. -/
abbrev Table := List (String × Setting)

/-! ## Reading values -/

/-- The natural number of a run of digits with an optional plus. -/
def natOfText? (s : String) : Option Nat :=
  let digits :=
    match s.toList with
    | '+' :: rest => rest
    | cs => cs
  if !digits.isEmpty && digits.all Char.isDigit then some (Decimal.ofDigits digits) else none

/-- The whole number of a run of digits with an optional sign. -/
def intOfText? (s : String) : Option Int :=
  match s.toList with
  | '-' :: rest =>
    if !rest.isEmpty && rest.all Char.isDigit then some (-(Decimal.ofDigits rest : Int)) else none
  | _ => (natOfText? s).map fun n => (n : Int)

/-- Whether a whole number fits in 64 bits. -/
def fits (n : Int) : Bool := -0x8000000000000000 ≤ n && n < 0x8000000000000000

/-- The numbers that a setting can hold are below this one. -/
def bound : Nat := 0x10000000000000000

/-- The natural number closest to a double, a half going up; zero below zero and for NaN. -/
def roundToNat (x : Float) : Nat :=
  if x.isNaN || Binary64.isNegative x then 0
  else if x.isInf then bound - 1
  else min (bound - 1) (Binary64.roundDiv (Binary64.unitsAbs x) (1 <<< 1074) .up)

/-- The value as a natural number below a limit. -/
def natural? (limit : Nat) (v : Setting) : Option Nat :=
  let n? :=
    match v with
    | unset => none
    | flag b => some (if b then 1 else 0)
    | whole n => if 0 ≤ n then some n.toNat else none
    | real x => some (roundToNat x)
    | text s =>
      let word := s.map Char.toLower
      if ["true", "on", "yes"].contains word then some 1
      else if ["false", "off", "no"].contains word then some 0
      else natOfText? s
    | list _ => none
    | table _ => none
  n?.bind fun n => if n < limit then some n else none

def text? : Setting → Option String
  | unset => none
  | flag b => some (if b then "true" else "false")
  | whole n => some ((if n < 0 then "-" else "") ++ Decimal.digitsText n.natAbs)
  | real x => some (Decimal.plain x)
  | text s => some s
  | list _ => none
  | table _ => none

def list? : Setting → Option (List Setting)
  | list items => some items
  | _ => none

/-- The value as the fields of a record: a table, or a list of the fields in order. -/
def fields? (names : List String) : Setting → Option Table
  | table es => some es
  | list items => some (List.zip names items)
  | _ => none

def get? (key : String) : Table → Option Setting
  | [] => none
  | (k, v) :: rest => if k == key then some v else get? key rest

/-- A field that must be there. -/
def required? {α : Type} (fields : Table) (key : String) (read : Setting → Option α) : Option α :=
  (get? key fields).bind read

/-- A field that may be missing. -/
def optional? {α : Type} (fields : Table) (key : String) (read : Setting → Option α)
    (default : α) : Option α :=
  match get? key fields with
  | some v => read v
  | none => some default

/-! ## Overlaying -/

def put (key : String) (value : Setting) : Table → Table
  | [] => [(key, value)]
  | (k, v) :: rest => if k == key then (k, value) :: rest else (k, v) :: put key value rest

/-- The entries of a table; a value that is no table has none. -/
def entries : Setting → Table
  | table es => es
  | _ => []

mutual
/-- A value over what was there before. -/
def overlay (old : Setting) : Setting → Setting
  | table es => table (overlayAll old.entries es)
  | v => v
/-- Entries over the entries that were there before. -/
def overlayAll (olds : Table) : Table → Table
  | [] => olds
  | (key, v) :: rest =>
    overlayAll (put key (overlay ((get? key olds).getD unset) v) olds) rest
end

end Setting

end Geocast
