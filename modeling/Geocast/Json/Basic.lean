import Geocast.Number.Decimal

/-!
# JSON values

The values of the wire form. A number is an integer when it is written without a point and an
exponent and fits in 64 bits, else a double. Members of an object keep their order and may repeat a
name; what a repetition means is for the reader of the object to say.

A value can be written correctly and still stand for nothing: a number too large for a double, a
text with half of a surrogate pair. It is read as `flawed`, or as `nameless` where the text is the
name of a member. A text that is no JSON value is one up to some place; its value then ends in a
part that is `broken`, and what comes before that part can be looked at.

* `sound`: no part is at fault and the nesting is not too deep. Such a value may be read as a whole.
* `intact`: no part is broken. Such a value may be passed over.
-/
namespace Geocast

inductive Json where
  | null
  | bool (value : Bool)
  | int (value : Int)
  | float (value : Float)
  | str (value : String)
  | arr (items : List Json)
  | obj (members : List (String × Json))
  | flawed
  | nameless (value : Json)
  | broken

namespace Json

/-- The value of a member, the first of that name. -/
def get? (name : String) : List (String × Json) → Option Json
  | [] => none
  | (key, value) :: rest => if key == name then some value else get? name rest

mutual
/-- Whether no part of the value is at fault and arrays and objects nest at most `limit` deep. -/
def sound (limit : Nat) : Json → Bool
  | .flawed | .nameless _ | .broken => false
  | .arr items => limit != 0 && soundItems (limit - 1) items
  | .obj members => limit != 0 && soundMembers (limit - 1) members
  | _ => true
def soundItems (limit : Nat) : List Json → Bool
  | [] => true
  | item :: rest => sound limit item && soundItems limit rest
def soundMembers (limit : Nat) : List (String × Json) → Bool
  | [] => true
  | (_, value) :: rest => sound limit value && soundMembers limit rest
end

mutual
/-- Whether no part of the value is broken. -/
def intact : Json → Bool
  | .broken => false
  | .nameless value => intact value
  | .arr items => intactItems items
  | .obj members => intactMembers members
  | _ => true
def intactItems : List Json → Bool
  | [] => true
  | item :: rest => intact item && intactItems rest
def intactMembers : List (String × Json) → Bool
  | [] => true
  | (_, value) :: rest => intact value && intactMembers rest
end

/-- Whether a member with the value may be passed over: it has a name, and the value is intact. -/
def passable : Json → Bool
  | .nameless _ => false
  | value => value.intact

/-- How deep arrays and objects may nest. -/
def depthLimit : Nat := 127

/-- The object with the members that are present. -/
def ofOptions (members : List (String × Option Json)) : Json :=
  .obj (members.filterMap fun (name, value) => value.map (name, ·))

end Json

end Geocast
