import Geocast.Text.Pieces

/-!
# Names of settings files

A name is a list of parts with slashes between them. Empty parts and single dots lead nowhere, so
names that differ only in them are one place. The ending of settings files may be left out.
-/
namespace Geocast.FileName

/-- The ending of settings files. -/
def ending : String := ".toml"

/-- The parts of a name that lead somewhere. -/
def parts (name : String) : List (List Char) :=
  (Text.pieces '/' name.toList).filter fun part => part != [] && part != ['.']

/-- The place that a name stands for, as the shortest of its names. -/
def place (name : String) : String :=
  (if name.startsWith "/" then "/" else "") ++ String.ofList (Text.joined '/' (parts name))

/-- Whether a name can be that of a directory only, since no part is behind its last slash. -/
def isDirectory (name : String) : Bool :=
  match (Text.pieces '/' name.toList).getLast? with
  | some part => part == [] || part == ['.']
  | none => true

/-- Whether the last part of a name can have an ending. -/
def takesEnding (name : String) : Bool :=
  match (parts name).getLast? with
  | some part => part != ['.', '.']
  | none => false

/-- The places where the file of a name can be. -/
def places (name : String) : List String := [place name, place name ++ ending]

/-- The file of a name: the file of that very name if there is one, else the one with the ending of
settings files. A file with another ending is not looked at. -/
def find? {α : Type} (files : String → Option α) (name : String) : Option α :=
  if !isDirectory name && (files (place name)).isSome then
    if (place name).endsWith ending then files (place name) else none
  else if takesEnding name then files (place name ++ ending)
  else none

end Geocast.FileName
