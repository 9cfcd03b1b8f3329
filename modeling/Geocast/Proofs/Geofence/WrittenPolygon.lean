import Geocast.Proofs.Geofence.Closing
import Mathlib.Data.List.Forall2

/-!
# Polygons written as well-known text

A polygon is written as rings of coordinates, in any of the texts that are read as their numbers.
The text falls into the tokens that are put in, a reader that takes each part takes a list of them
up to the closing parenthesis, and the budget suffices since there are no more parts than tokens. Of
the rings only the outer one counts, with longitudes before latitudes. It is closed on the way
unless it is closed already, and the polygon drops one closing repetition again; so a text that
repeats the first pair of a list that was closed before is not the polygon of that list.

* `Spells`, `Spelled`: texts that are read as numbers and coordinates.
* `polygonText`: how a polygon is written.
* `HasTokens`, `hasTokens_ring`: the tokens of what is written.
* `Reads`, `reads_list`: readers that take what is written.
* `read_polygonText`: a written polygon is read as its rings.
* `ofWellKnownText_polygonText`: the geofence of a written polygon.
* `ofWellKnownText_closed_twice`: a list at two places, closed twice in the text, is accepted.
-/
namespace Geocast

namespace WellKnownText

/-! ## Writing -/

/-- A text is read as a number: it starts as numbers do, nothing in it ends a number, and it stands
for the double when a leading plus is left out. -/
structure Spells (text : String) (x : Float) : Prop where
  starts : text.toList.head?.any startsNumber = true
  unbroken : text.toList.all (fun c => !isStop c) = true
  reads : DecimalText.parse? (String.ofList
    (if text.toList.head? = some '+' then text.toList.tail else text.toList)) = some x

theorem spells_zero : Spells "0" 0.0 := ⟨rfl, rfl, by decide +kernel⟩

theorem spells_one : Spells "1" 1.0 := ⟨rfl, rfl, by decide +kernel⟩

/-- A pair of texts is read as a coordinate, longitude first. -/
structure Spelled (pair : String × String) (p : Location) : Prop where
  lon : Spells pair.1 p.lon
  lat : Spells pair.2 p.lat

/-- The text of a coordinate. -/
def pairText (pair : String × String) : String := pair.1 ++ " " ++ pair.2

def ringText (pairs : List (String × String)) : String :=
  "(" ++ ", ".intercalate (pairs.map pairText) ++ ")"

/-- The text of a polygon, outer ring first. -/
def polygonText (rings : List (List (String × String))) : String :=
  "POLYGON(" ++ ", ".intercalate (rings.map ringText) ++ ")"

/-! ## Tokens -/

/-- A run grows until a character ends it. -/
theorem tokens_append {cs : List Char} (h : ∀ c ∈ cs, isStop c = false) (run rest : List Char) :
    tokens run (cs ++ rest) = tokens (cs.reverse ++ run) rest := by
  induction cs generalizing run with
  | nil => rfl
  | cons c cs ih =>
    obtain ⟨hc, hcs⟩ := List.forall_mem_cons.1 h
    simp only [isStop, Bool.or_eq_false_iff, beq_eq_false_iff_ne] at hc
    obtain ⟨⟨⟨⟨hblank, hopening⟩, hclosing⟩, hcomma⟩, hnul⟩ := hc
    rw [List.cons_append, tokens, if_neg hnul, if_neg (by simpa using hopening),
      if_neg (by simpa using hclosing), if_neg (by simpa using hcomma), hblank,
      if_neg Bool.false_ne_true, ih hcs, List.reverse_cons, List.append_assoc, List.singleton_append]

/-- A character that ends runs has the tokens behind it that it has on its own. -/
theorem tokens_stop {c : Char} (h : isStop c = true) (run rest : List Char) :
    tokens run (c :: rest) = tokens.flush run (tokens [] (c :: rest)) := by
  unfold tokens
  split_ifs with h₁ h₂ h₃ h₄ h₅
  · rfl
  · rfl
  · rfl
  · rfl
  · rfl
  · simp [isStop, h₁, h₂, h₃, h₄, h₅] at h

/-- Before a character that ends runs, a text has the given tokens. -/
def HasTokens (text : List Char) (ts : List Token) : Prop :=
  ∀ (c : Char) (rest : List Char), isStop c = true →
    tokens [] (text ++ c :: rest) = ts ++ tokens [] (c :: rest)

theorem hasTokens_of_spells {text : String} {x : Float} (h : Spells text x) :
    HasTokens text.toList [.number x] := by
  intro c rest hc
  obtain ⟨hstarts, hunbroken, hreads⟩ := h
  have hall : ∀ d ∈ text.toList, isStop d = false := by simpa using hunbroken
  cases hchars : text.toList with
  | nil =>
    rw [hchars] at hstarts
    cases hstarts
  | cons d ds =>
    rw [hchars] at hstarts hreads hall
    simp only [List.head?_cons, Option.any_some, Option.some.injEq, List.tail_cons] at hstarts hreads
    have htoken : tokenOf (d :: ds) = .number x := by
      simp only [tokenOf, hstarts, beq_iff_eq, hreads, ↓reduceIte]
    rw [tokens_append hall, tokens_stop hc, List.append_nil, tokens.flush, List.isEmpty_reverse,
      List.isEmpty_cons, if_neg Bool.false_ne_true, List.reverse_reverse, htoken,
      List.singleton_append]

def coordinateTokens (p : Location) : List Token := [.number p.lon, .number p.lat]

theorem hasTokens_pair {pair : String × String} {p : Location} (h : Spelled pair p) :
    HasTokens (pairText pair).toList (coordinateTokens p) := by
  intro c rest hc
  have hblank : ∀ cs, tokens [] (' ' :: cs) = tokens [] cs := fun _ => rfl
  have htext : (pairText pair).toList ++ c :: rest =
      pair.1.toList ++ ' ' :: (pair.2.toList ++ c :: rest) := by
    simp [pairText]
  rw [htext, hasTokens_of_spells h.lon ' ' _ rfl, hblank, hasTokens_of_spells h.lat c rest hc]
  rfl

/-- Texts with commas and blanks between them have their tokens with commas between them. -/
theorem hasTokens_intercalate {texts : List (List Char)} {pieces : List (List Token)}
    (h : List.Forall₂ HasTokens texts pieces) :
    HasTokens ([',', ' '].intercalate texts) ([.comma].intercalate pieces) := by
  have hcomma : ∀ cs, tokens [] (',' :: ' ' :: cs) = .comma :: tokens [] cs := fun _ => rfl
  intro c rest hc
  induction h with
  | nil => rfl
  | @cons text piece texts pieces htext hmore ih =>
    cases hmore with
    | nil => simpa using htext c rest hc
    | cons hnext hlater =>
      rw [List.intercalate_cons_cons, List.intercalate_cons_cons, List.append_assoc,
        List.append_assoc, List.append_assoc, List.append_assoc, ← ih]
      exact (htext ',' _ rfl).trans (congrArg (piece ++ ·) (hcomma _))

theorem tokens_parenthesised {text : List Char} {ts : List Token} (h : HasTokens text ts)
    (rest : List Char) : tokens [] ('(' :: (text ++ ')' :: rest)) =
      .opening :: (ts ++ .closing :: tokens [] rest) := by
  have hopening : ∀ cs, tokens [] ('(' :: cs) = .opening :: tokens [] cs := fun _ => rfl
  rw [hopening, h ')' rest rfl]
  rfl

/-- The tokens of parts in parentheses. -/
def listTokens (pieces : List (List Token)) : List Token :=
  .opening :: ([.comma].intercalate pieces ++ [.closing])

def ringTokens (ps : List Location) : List Token := listTokens (ps.map coordinateTokens)

theorem hasTokens_ring {pairs : List (String × String)} {ps : List Location}
    (h : List.Forall₂ Spelled pairs ps) :
    HasTokens (ringText pairs).toList (ringTokens ps) := by
  intro c rest hc
  have hpairs : List.Forall₂ HasTokens ((pairs.map pairText).map String.toList)
      (ps.map coordinateTokens) := by
    rw [List.map_map, List.forall₂_map_left_iff, List.forall₂_map_right_iff]
    exact h.imp fun _ _ => hasTokens_pair
  have htext : (ringText pairs).toList ++ c :: rest = '(' ::
      ([',', ' '].intercalate ((pairs.map pairText).map String.toList) ++ ')' :: c :: rest) := by
    simp [ringText, String.toList_intercalate]
  rw [htext, tokens_parenthesised (hasTokens_intercalate hpairs)]
  simp [ringTokens, listTokens]

theorem tokens_polygonText {texts : List (List (String × String))} {rings : List (List Location)}
    (h : List.Forall₂ (List.Forall₂ Spelled) texts rings) :
    tokens [] (polygonText texts).toList = .word "POLYGON" :: listTokens (rings.map ringTokens) := by
  have hrings : List.Forall₂ HasTokens ((texts.map ringText).map String.toList)
      (rings.map ringTokens) := by
    rw [List.map_map, List.forall₂_map_left_iff, List.forall₂_map_right_iff]
    exact h.imp fun _ _ => hasTokens_ring
  have htext : (polygonText texts).toList = "POLYGON".toList ++ '(' ::
      ([',', ' '].intercalate ((texts.map ringText).map String.toList) ++ ')' :: []) := by
    simp [polygonText, String.toList_intercalate]
  have hword : ∀ c ∈ "POLYGON".toList, isStop c = false := by simp [isStop, isBlank]
  rw [htext, tokens_append hword, tokens_stop rfl,
    tokens_parenthesised (hasTokens_intercalate hrings)]
  rfl

/-! ## Readers -/

/-- A reader takes the tokens from the front of any others and gives the value. -/
def Reads {α : Type} (reader : Reader α) (ts : List Token) (a : α) : Prop :=
  ∀ rest, reader (ts ++ rest) = (.ok a, rest)

theorem reads_coordinate (p : Location) : Reads (coordinate .xy) (coordinateTokens p) p :=
  fun _ => rfl

/-- Parts with commas between them are taken up to the closing parenthesis. -/
theorem commaList_intercalate {α : Type} {part : Reader α} {pieces : List (List Token)} {as : List α}
    (h : List.Forall₂ (Reads part) pieces as) (hne : as ≠ []) {fuel : Nat} (hfuel : as.length ≤ fuel)
    (rest : List Token) :
    commaList part fuel ([.comma].intercalate pieces ++ .closing :: rest) =
      (.ok as, .closing :: rest) := by
  induction h generalizing fuel with
  | nil => exact absurd rfl hne
  | @cons piece a pieces as hpiece hmore ih =>
    cases fuel with
    | zero => simp at hfuel
    | succ fuel =>
      cases hmore with
      | nil =>
        rw [List.intercalate_singleton, commaList, hpiece]
      | cons hnext hlater =>
        rw [List.intercalate_cons_cons, List.append_assoc, List.append_assoc, commaList, hpiece,
          List.singleton_append]
        dsimp only
        rw [andThen, ih (List.cons_ne_nil _ _) (by simpa using hfuel)]

/-- A list in parentheses is taken when the budget covers its parts. -/
theorem reads_list {α : Type} {part : Reader α} {pieces : List (List Token)} {as : List α}
    (h : List.Forall₂ (Reads part) pieces as) (hne : as ≠ []) {fuel : Nat}
    (hfuel : as.length ≤ fuel) :
    Reads (parenthesised [] (commaList part fuel)) (listTokens pieces) as := by
  intro rest
  rw [listTokens, List.cons_append, List.append_assoc, List.singleton_append, parenthesised,
    commaList_intercalate h hne hfuel]

/-- No list in parentheses has more parts than tokens, and no part has more. -/
theorem length_le_listTokens (pieces : List (List Token)) :
    pieces.length ≤ (listTokens pieces).length ∧
      ∀ piece ∈ pieces, piece.length ≤ (listTokens pieces).length := by
  simp only [listTokens, List.length_cons, List.length_append, List.length_nil]
  induction pieces with
  | nil => simp
  | cons piece pieces ih =>
    cases pieces with
    | nil =>
      simp only [List.intercalate_singleton, List.forall_mem_singleton, List.length_singleton]
      omega
    | cons next later =>
      rw [List.intercalate_cons_cons]
      simp only [List.length_cons, List.length_append, List.length_nil, List.forall_mem_cons] at ih ⊢
      obtain ⟨hcount, hnext, hlater⟩ := ih
      refine ⟨by omega, by omega, by omega, fun piece hpiece => ?_⟩
      have := hlater piece hpiece
      omega

theorem reads_ring {ps : List Location} (hne : ps ≠ []) {fuel : Nat} (hfuel : ps.length ≤ fuel) :
    Reads (parenthesised [] (ring fuel .xy)) (ringTokens ps) ps := by
  refine reads_list ?_ hne hfuel
  rw [List.forall₂_map_left_iff]
  exact List.forall₂_same.2 fun p _ => reads_coordinate p

theorem reads_rings {polygon : List (List Location)} (hne : polygon ≠ [])
    (hrings : ∀ ps ∈ polygon, ps ≠ []) {fuel : Nat}
    (hfuel : (listTokens (polygon.map ringTokens)).length ≤ fuel) :
    Reads (parenthesised [] (rings fuel .xy)) (listTokens (polygon.map ringTokens)) polygon := by
  obtain ⟨hcount, hlength⟩ := length_le_listTokens (polygon.map ringTokens)
  rw [List.length_map] at hcount
  refine reads_list ?_ hne (by omega)
  rw [List.forall₂_map_left_iff]
  refine List.forall₂_same.2 fun ps hps => reads_ring (hrings ps hps) ?_
  have hring := hlength _ (List.mem_map_of_mem hps)
  have hpoints := (length_le_listTokens (ps.map coordinateTokens)).1
  rw [List.length_map] at hpoints
  exact (hpoints.trans hring).trans hfuel

theorem read_polygonText {texts : List (List (String × String))} {outer : List Location}
    {inner : List (List Location)}
    (h : List.Forall₂ (List.Forall₂ Spelled) texts (outer :: inner))
    (hrings : ∀ ps ∈ outer :: inner, ps ≠ []) :
    read (polygonText texts) = .ok (.polygon (outer :: inner)) := by
  have hkind : kindOf? "POLYGON" = some (.polygon, none) := by cbv
  have hascii : ("POLYGON".toList.all fun c => decide (c.toNat < 128)) = true := by decide
  have hdimension : ∀ pieces, dimension (listTokens pieces) = (.ok .xy, listTokens pieces) :=
    fun _ => rfl
  rw [read, tokens_polygonText h]
  dsimp only
  rw [if_pos hascii, geometry, hkind]
  dsimp only
  rw [andThen, dimensionOr, hdimension]
  dsimp only
  have hread := reads_rings (List.cons_ne_nil outer inner) hrings (Nat.le_add_right _ 2) []
  rw [List.append_nil] at hread
  rw [made, andThen, List.length_cons, hread]

end WellKnownText

/-! ## Geofences -/

namespace Geofence
open WellKnownText

theorem ofWellKnownText_eq_polygon {texts : List (String × String)}
    {inner : List (List (String × String))} {outer : List Location} {holes : List (List Location)}
    (houter : List.Forall₂ Spelled texts outer) (hne : outer ≠ [])
    (hinner : List.Forall₂ (List.Forall₂ Spelled) inner holes)
    (hholes : ∀ hole ∈ holes, hole ≠ []) :
    ofWellKnownText (polygonText (texts :: inner)) = polygon outer := by
  rw [ofWellKnownText, read_polygonText (.cons houter hinner) (List.forall_mem_cons.2 ⟨hne, hholes⟩)]
  exact polygon_close outer

/-- The polygon that is written with an outer ring of any locations, in any texts that are read as
their coordinates, is the polygon with these corners, or the refusal is the same; inner rings make
no difference. If the text repeats the first pair at its end, it is what is made of the list with
that repetition, and this is the same exactly if the list itself is not closed, has a location off
the globe, or stays at one place. -/
theorem ofWellKnownText_polygonText {pair : String × String} {pairs : List (String × String)}
    {p : Location} {ps : List Location} {inner : List (List (String × String))}
    {holes : List (List Location)}
    (houter : List.Forall₂ Spelled (pair :: pairs) (p :: ps))
    (hinner : List.Forall₂ (List.Forall₂ Spelled) inner holes) (hne : ∀ hole ∈ holes, hole ≠ []) :
    ofWellKnownText (polygonText ((pair :: pairs) :: inner)) = polygon (p :: ps) ∧
      ofWellKnownText (polygonText ((pair :: pairs ++ [pair]) :: inner)) =
        polygon (p :: ps ++ [p]) ∧
      (ofWellKnownText (polygonText ((pair :: pairs ++ [pair]) :: inner)) = polygon (p :: ps) ↔
        (Shape.polygon (p :: ps)).isClosed = false ∨ (∃ q ∈ p :: ps, q.isValid = false) ∨
          ∀ q ∈ p :: ps, (q == p) = true) := by
  have hfirst : Spelled pair p := by
    cases houter with
    | cons hfirst _ => exact hfirst
  have hagain : List.Forall₂ Spelled (pair :: pairs ++ [pair]) (p :: ps ++ [p]) :=
    List.rel_append houter (.cons hfirst .nil)
  have hwritten := ofWellKnownText_eq_polygon houter (List.cons_ne_nil _ _) hinner hne
  have hrepeated := ofWellKnownText_eq_polygon hagain (List.cons_ne_nil _ _) hinner hne
  refine ⟨hwritten, hrepeated, ?_⟩
  rw [hrepeated]
  exact polygon_append_first_iff

/-- A triangle with a hole, written open and closed. -/
theorem ofWellKnownText_triangle :
    let pairs := [("0", "0"), ("+7.50", "0"), ("0", "5e0")]
    let hole := [("1", "1"), ("2", "1"), (".1e1", "2.")]
    let ps : List Location := [⟨0.0, 0.0⟩, ⟨0.0, 7.5⟩, ⟨5.0, 0.0⟩]
    let holes : List (List Location) := [[⟨1.0, 1.0⟩, ⟨1.0, 2.0⟩, ⟨2.0, 1.0⟩]]
    List.Forall₂ Spelled pairs ps ∧ List.Forall₂ (List.Forall₂ Spelled) [hole] holes ∧
      (∀ ring ∈ holes, ring ≠ []) ∧ ofWellKnownText (polygonText [pairs, hole]) = polygon ps ∧
      (Shape.polygon ps).isClosed = false ∧
      ofWellKnownText (polygonText [pairs ++ [("0", "0")], hole]) = polygon ps := by
  intro pairs hole ps holes
  have houter : List.Forall₂ Spelled pairs ps :=
    .cons ⟨spells_zero, spells_zero⟩ (.cons ⟨⟨rfl, rfl, by decide +kernel⟩, spells_zero⟩
      (.cons ⟨spells_zero, ⟨rfl, rfl, by decide +kernel⟩⟩ .nil))
  have hhole : List.Forall₂ Spelled hole [⟨1.0, 1.0⟩, ⟨1.0, 2.0⟩, ⟨2.0, 1.0⟩] :=
    .cons ⟨spells_one, spells_one⟩ (.cons ⟨⟨rfl, rfl, by decide +kernel⟩, spells_one⟩
      (.cons ⟨⟨rfl, rfl, by decide +kernel⟩,
        ⟨rfl, rfl, by decide +kernel⟩⟩ .nil))
  have hinner : List.Forall₂ (List.Forall₂ Spelled) [hole] holes := .cons hhole .nil
  have hholes : ∀ ring ∈ holes, ring ≠ [] := by simp [holes]
  have hopen : (Shape.polygon ps).isClosed = false := rfl
  have hwritten := ofWellKnownText_polygonText houter hinner hholes
  exact ⟨houter, hinner, hholes, hwritten.1, hopen, hwritten.2.2.2 (.inl hopen)⟩

/-- Two locations, of which the first is given again at the end, are refused, and so is what is
written with these pairs. Written with the first pair once more they are accepted. -/
theorem ofWellKnownText_closed_twice :
    let pairs := [("0", "0"), ("1", "0"), ("0", "0")]
    let ps : List Location := [⟨0.0, 0.0⟩, ⟨0.0, 1.0⟩, ⟨0.0, 0.0⟩]
    List.Forall₂ Spelled pairs ps ∧ polygon ps = .error (.tooFewPoints 2) ∧
      ofWellKnownText (polygonText [pairs]) = .error (.tooFewPoints 2) ∧
      polygonText [pairs ++ [("0", "0")]] = "POLYGON((0 0, 1 0, 0 0, 0 0))" ∧
      ∃ g, ofWellKnownText (polygonText [pairs ++ [("0", "0")]]) = .ok g ∧
        g.shape = .polygon ps := by
  intro pairs ps
  have houter : List.Forall₂ Spelled pairs ps :=
    .cons ⟨spells_zero, spells_zero⟩ (.cons ⟨spells_one, spells_zero⟩
      (.cons ⟨spells_zero, spells_zero⟩ .nil))
  have hagain : List.Forall₂ Spelled (pairs ++ [("0", "0")]) (ps ++ [⟨0.0, 0.0⟩]) :=
    List.rel_append houter (.cons ⟨spells_zero, spells_zero⟩ .nil)
  have haccepted : (Shape.polygon ps).Accepted = true := by decide +kernel
  refine ⟨houter, rfl, ?_, rfl, ofAccepted _ haccepted, ?_, rfl⟩
  · exact ofWellKnownText_eq_polygon houter (List.cons_ne_nil _ _) .nil (by simp)
  · exact ofWellKnownText_eq_polygon hagain (List.cons_ne_nil _ _) .nil (by simp)

end Geofence

end Geocast
