import Geocast.Geofence.Basic
import Geocast.Number.DecimalText

/-!
# Geofences written as well-known text

A boundary is written as `POLYGON((lon lat, lon lat, …), …)`. Only the outer ring counts. Other
geometries are read as far as their grammar goes and then refused, so a fault in them is reported as
a fault.

A reader takes tokens from the front and gives a result or a reason, together with the tokens that
are left; after a failure too, because the token behind a failed content is still looked at.
Repeated and nested parts count down a budget; the number of tokens is enough, since each part
consumes one.
-/
namespace Geocast.WellKnownText

/-! ## Tokens -/

/-- A token. A number that cannot be read is a token of its own; so is the character NUL, which
stands for an end of the text. -/
inductive Token where
  | opening
  | closing
  | comma
  | number (x : Float)
  | badNumber
  | word (text : String)
  | nul

def isBlank (c : Char) : Bool := c == ' ' || c == '\t' || c == '\r' || c == '\n'

/-- The characters that end a number or a word. -/
def isStop (c : Char) : Bool := isBlank c || c == '(' || c == ')' || c == ',' || c.toNat == 0

/-- The characters that begin a number. -/
def startsNumber (c : Char) : Bool := c.isDigit || c == '.' || c == '-' || c == '+'

/-- The token of a run of characters; a leading plus of a number is dropped. -/
def tokenOf (cs : List Char) : Token :=
  match cs with
  | [] => .word ""
  | c :: rest =>
    if startsNumber c then
      match DecimalText.parse? (String.ofList (if c == '+' then rest else cs)) with
      | some x => .number x
      | none => .badNumber
    else .word (String.ofList cs)

/-- The tokens of a text. A run is the characters, latest first, of the number or word at hand. -/
def tokens (run : List Char) : List Char → List Token
  | [] => flush run []
  | c :: rest =>
    if c.toNat = 0 then flush run (.nul :: tokens [] rest)
    else if c == '(' then flush run (.opening :: tokens [] rest)
    else if c == ')' then flush run (.closing :: tokens [] rest)
    else if c == ',' then flush run (.comma :: tokens [] rest)
    else if isBlank c then flush run (tokens [] rest)
    else tokens (c :: run) rest
where
  /-- Puts the token of a finished run before the later tokens. -/
  flush (run : List Char) (later : List Token) : List Token :=
    if run.isEmpty then later else tokenOf run.reverse :: later

/-! ## Readers -/

/-- A reader gives a result or a reason, and the tokens that are left. -/
abbrev Reader (α : Type) := List Token → Except String α × List Token

def badNumberReason : String := "Unable to parse input number as the desired output type"

/-- Reads with the first reader, then with the second unless the first failed. -/
def andThen {α β : Type} (first : Reader α) (next : α → Reader β) : Reader β := fun ts =>
  match first ts with
  | (.ok a, rest) => next a rest
  | (.error e, rest) => (.error e, rest)

inductive Dimension where
  | xy
  | xyz
  | xym
  | xyzm

/-- One number; `axis` names it in the reason. -/
def number (axis : String) : Reader Float
  | .number x :: rest => (.ok x, rest)
  | .badNumber :: rest => (.error badNumberReason, rest)
  | _ :: rest => (.error ("Expected a number for the " ++ axis ++ " coordinate"), rest)
  | [] => (.error ("Expected a number for the " ++ axis ++ " coordinate"), [])

/-- The numbers after the first two, which are read and left out. -/
def extras : Dimension → Reader Unit
  | .xy => fun ts => (.ok (), ts)
  | .xyz => andThen (number "Z") fun _ ts => (.ok (), ts)
  | .xym => andThen (number "M") fun _ ts => (.ok (), ts)
  | .xyzm => andThen (number "Z") fun _ => andThen (number "M") fun _ ts => (.ok (), ts)

/-- A coordinate: longitude, then latitude. -/
def coordinate (d : Dimension) : Reader Location :=
  andThen (number "X") fun lon => andThen (number "Y") fun lat =>
    andThen (extras d) fun _ ts => (.ok ⟨lat, lon⟩, ts)

/-- Parts separated by commas, at least one. -/
def commaList {α : Type} (part : Reader α) : Nat → Reader (List α)
  | 0, ts => (.error "", ts)
  | fuel + 1, ts =>
    match part ts with
    | (.error e, rest) => (.error e, rest)
    | (.ok a, .comma :: rest) =>
      andThen (commaList part fuel) (fun as ts => (.ok (a :: as), ts)) rest
    | (.ok a, rest) => (.ok [a], rest)

/-- Whether a word is the given one, in any case. -/
def isWord (text word : String) : Bool := text.map Char.toLower == word.map Char.toLower

/-- `EMPTY`, or a content in parentheses. The token behind the content must be a closing
parenthesis; if it is not, that is the reason, whatever the content's own was. -/
def parenthesised {α : Type} (empty : α) (content : Reader α) : Reader α
  | .opening :: rest =>
    match content rest with
    | (result, .closing :: after) => (result, after)
    | (_, .badNumber :: after) => (.error badNumberReason, after)
    | (_, after) => (.error "Missing closing parenthesis for type", after.drop 1)
  | .badNumber :: rest => (.error badNumberReason, rest)
  | .word text :: rest =>
    if isWord text "EMPTY" then (.ok empty, rest)
    else (.error "Missing open parenthesis for type", rest)
  | _ :: rest => (.error "Missing open parenthesis for type", rest)
  | [] => (.error "Missing open parenthesis for type", [])

/-- A content that may stand in parentheses. -/
def optionallyParenthesised {α : Type} (empty : α) (content : Reader α) : Reader α
  | .opening :: rest => parenthesised empty content (.opening :: rest)
  | ts => content ts

/-- The letters that may follow a type name as a word of their own. -/
def dimension : Reader Dimension
  | .word text :: rest =>
    if isWord text "Z" then (.ok .xyz, rest)
    else if isWord text "M" then (.ok .xym, rest)
    else if isWord text "ZM" then (.ok .xyzm, rest)
    else if isWord text "EMPTY" then (.ok .xy, .word text :: rest)
    else (.error "Unexpected word before open paren", .word text :: rest)
  | .badNumber :: rest => (.error "End of stream", .badNumber :: rest)
  | .nul :: rest => (.error "End of stream", .nul :: rest)
  | [] => (.error "End of stream", [])
  | ts => (.ok .xy, ts)

/-! ## Geometries -/

inductive Kind where
  | point
  | lineString
  | polygon
  | multiPoint
  | multiLineString
  | multiPolygon
  | collection

/-- A geometry that was read. Of a polygon the first ring is the outer one. -/
inductive Geometry where
  | point (p : Location)
  | lineString (ps : List Location)
  | polygon (rings : List (List Location))
  | multiPoint (ps : List Location)
  | multiLineString (lines : List (List Location))
  | multiPolygon (polygons : List (List (List Location)))
  | collection (gs : List Geometry)

def kinds : List (String × Kind) :=
  [("POINT", .point), ("LINESTRING", .lineString), ("LINEARRING", .lineString),
    ("POLYGON", .polygon), ("MULTIPOINT", .multiPoint), ("MULTILINESTRING", .multiLineString),
    ("MULTIPOLYGON", .multiPolygon), ("GEOMETRYCOLLECTION", .collection)]

/-- The endings that a type name may have; the name of a closed line string has none. -/
def endings (name : String) : List (String × Option Dimension) :=
  if name == "LINEARRING" then [("", none)]
  else [("", none), ("Z", some .xyz), ("M", some .xym), ("ZM", some .xyzm)]

/-- The kind, and the dimension if the word has one as its ending. -/
def kindOf? (text : String) : Option (Kind × Option Dimension) :=
  kinds.findSome? fun (name, kind) =>
    (endings name).findSome? fun (ending, d) =>
      if isWord text (name ++ ending) then some (kind, d) else none

/-- A ring: coordinates separated by commas. -/
def ring (fuel : Nat) (d : Dimension) : Reader (List Location) := commaList (coordinate d) fuel

def rings (fuel : Nat) (d : Dimension) : Reader (List (List Location)) :=
  commaList (parenthesised [] (ring fuel d)) fuel

/-- The reader of a type's dimension: what the type name says, or what follows it. -/
def dimensionOr : Option Dimension → Reader Dimension
  | some d => fun ts => (.ok d, ts)
  | none => dimension

/-- The geometry with the content that a reader gives. -/
def made {α : Type} (geometry : α → Geometry) (content : Reader α) : Reader Geometry :=
  andThen content fun a ts => (.ok (geometry a), ts)

/-- A coordinate that may be left out. -/
def place (d : Dimension) : Reader (Option Location) :=
  andThen (coordinate d) fun p ts => (.ok (some p), ts)

mutual
/-- The geometry whose type name is the given word. -/
def geometry : Nat → String → Reader Geometry
  | 0, _, ts => (.error "", ts)
  | fuel + 1, text, ts =>
    match kindOf? text with
    | none => (.error "Invalid type encountered", ts)
    | some (kind, d?) =>
      andThen (dimensionOr d?) (fun d =>
        match kind with
        | .polygon => made .polygon (parenthesised [] (rings fuel d))
        | .point =>
          made (fun p => (p.map .point).getD (.multiPoint [])) (parenthesised none (place d))
        | .lineString => made .lineString (parenthesised [] (ring fuel d))
        | .multiPoint =>
          made (fun ps => .multiPoint (ps.filterMap id))
            (parenthesised [] (commaList (optionallyParenthesised none (place d)) fuel))
        | .multiLineString => made .multiLineString (parenthesised [] (rings fuel d))
        | .multiPolygon =>
          made .multiPolygon (parenthesised [] (commaList (parenthesised [] (rings fuel d)) fuel))
        | .collection => made .collection (parenthesised [] (geometries fuel))) ts
/-- Geometries separated by commas, each with its type name. -/
def geometries : Nat → Reader (List Geometry)
  | 0, ts => (.error "", ts)
  | fuel + 1, ts =>
    match ts with
    | .word text :: rest =>
      match geometry fuel text rest with
      | (.error e, rest) => (.error e, rest)
      | (.ok g, .comma :: rest) => andThen (geometries fuel) (fun gs ts => (.ok (g :: gs), ts)) rest
      | (.ok g, rest) => (.ok [g], rest)
    | .badNumber :: rest => (.error badNumberReason, rest)
    | _ :: rest => (.error "Expected a word in GEOMETRYCOLLECTION", rest)
    | [] => (.error "Expected a word in GEOMETRYCOLLECTION", [])
end

/-- The geometry of a text; what follows it is ignored. -/
def read (s : String) : Except String Geometry :=
  let ts := tokens [] s.toList
  match ts with
  | .word text :: rest =>
    if text.toList.all fun c => c.toNat < 128 then (geometry (ts.length + 2) text rest).1
    else .error "Encountered non-ascii word"
  | .badNumber :: _ => .error badNumberReason
  | _ => .error "Invalid WKT format"

/-- A ring with its first location repeated at the end unless it stands there already. -/
def close (ps : List Location) : List Location :=
  if ps.head? == ps.getLast? then ps else ps ++ ps.head?.toList

/-! ## Geometries in messages -/

/-- Parts in parentheses, or the word for none. -/
def listed (parts : List String) : String :=
  if parts.isEmpty then "EMPTY" else "(" ++ ", ".intercalate parts ++ ")"

/-- A type name before its parts. -/
def headed (name : String) (parts : List String) : String :=
  name ++ (if parts.isEmpty then " " else "") ++ listed parts

/-- Numbers are written with a point or an exponent. -/
def shownPlace (p : Location) : String :=
  Decimal.pointed (-3) p.lon ++ " " ++ Decimal.pointed (-3) p.lat

def shownLine (ps : List Location) : String := listed (ps.map shownPlace)

/-- The rings of a polygon are closed. -/
def shownRings (rings : List (List Location)) : List String := rings.map fun ps => shownLine (close ps)

mutual
def Geometry.shown : Geometry → String
  | .point p => headed "POINT" [shownPlace p]
  | .lineString ps => headed "LINESTRING" (ps.map shownPlace)
  | .polygon rings => headed "POLYGON" (shownRings rings)
  | .multiPoint ps => headed "MULTIPOINT" (ps.map shownPlace)
  | .multiLineString lines => headed "MULTILINESTRING" (lines.map shownLine)
  | .multiPolygon polygons =>
    headed "MULTIPOLYGON" (polygons.map fun rings => listed (shownRings rings))
  | .collection gs => headed "GEOMETRYCOLLECTION" (shownAll gs)
def Geometry.shownAll : List Geometry → List String
  | [] => []
  | g :: gs => g.shown :: Geometry.shownAll gs
end

end WellKnownText

/-- The geofence of a boundary in well-known text: the polygon of its outer ring. -/
def Geofence.ofWellKnownText (s : String) : Except GeofenceError Geofence :=
  match WellKnownText.read s with
  | .error reason => .error (.wellKnownText reason)
  | .ok (.polygon rings) => Geofence.polygon (WellKnownText.close (rings.headD []))
  | .ok other => .error (.unsupportedGeometry other.shown)

end Geocast
