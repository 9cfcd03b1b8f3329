/-!
# Pieces of a text

A text with a separator in it is the list of the pieces between the separators.
-/
namespace Geocast.Text

/-- The pieces of a text between separators; one more than there are separators. -/
def pieces (separator : Char) : List Char → List (List Char)
  | [] => [[]]
  | c :: rest =>
    match pieces separator rest with
    | [] => [[c]]
    | piece :: later => if c == separator then [] :: piece :: later else (c :: piece) :: later

/-- The pieces put together again, with the separator between them. -/
def joined (separator : Char) : List (List Char) → List Char
  | [] => []
  | [piece] => piece
  | piece :: next :: later => piece ++ separator :: joined separator (next :: later)

/-- The pieces are those of the library's splitting of lists. -/
theorem pieces_eq_splitOn (separator : Char) (cs : List Char) :
    pieces separator cs = cs.splitOn separator := by
  induction cs with
  | nil => rfl
  | cons c rest ih =>
    rw [List.splitOn, List.splitOnP_cons_eq_if_modifyHead]
    rw [List.splitOn] at ih
    rw [pieces, ih]
    cases hrest : rest.splitOnP (· == separator) with
    | nil => exact absurd hrest (List.splitOnP_ne_nil _ _)
    | cons piece later => rfl

theorem intercalate_singleton (separator : Char) (parts : List (List Char)) :
    [separator].intercalate parts = joined separator parts := by
  induction parts with
  | nil => rfl
  | cons piece parts ih =>
    cases parts with
    | nil => simp [joined]
    | cons next later => simp [List.intercalate_cons_cons, joined, ih]

end Geocast.Text
