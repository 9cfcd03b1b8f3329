import Geocast.Proofs.Json.Numbers
import Geocast.Text.Pieces
import Mathlib.Tactic.IntervalCases

/-!
# What is written is read

The text that is written of a value is read as that value, whatever follows it. Escapes are undone
one by one; the budget of the reader suffices since every step consumes a character. What starts a
value is neither a blank nor a closing bracket, so an array that is not empty is not read as empty.

* `Plain`: the values that have a text of their own. No part is at fault, integers fit in 64 bits,
  and doubles are read back from their texts.
* `text?_flatMap`: every text is read back up to its closing quote.
* `value_render`: every plain value is read back.
* `readFirst_render`: the text of a plain value holds that value and nothing else.
-/
namespace Geocast.Json

/-! ## Text -/

theorem textBody_quotedChar (c : Char) (fuel : Nat) (acc rest : List Char) :
    textBody (fuel + 1) (some acc) (quotedChar c ++ rest) =
      textBody fuel (some (c :: acc)) rest := by
  by_cases hquote : c = '"'
  · subst hquote
    rfl
  by_cases hslash : c = '\\'
  · subst hslash
    rfl
  by_cases hlow : c.toNat < 32
  · -- control characters, each by its own escape
    generalize hn : c.toNat = n at hlow
    obtain rfl : c = Char.ofNat n := by rw [← hn, Char.ofNat_toNat]
    interval_cases n <;> rfl
  · have hplain : quotedChar c = [c] := by simp [quotedChar, hquote, hslash, hlow]
    rw [hplain, List.singleton_append,
      textBody.eq_6 _ _ _ _ (by simp [hquote]) (by simp [hslash]) (by simp [hslash])]
    simp [hlow, hslash]

theorem length_le_flatMap_quotedChar (cs : List Char) :
    cs.length ≤ (cs.flatMap quotedChar).length := by
  induction cs with
  | nil => exact Nat.le_refl 0
  | cons c cs ih =>
    have hpos : 0 < (quotedChar c).length := by
      rw [List.length_pos_iff]
      intro hnil
      have hread := textBody_quotedChar c 1 [] ['"']
      rw [hnil] at hread
      cases hread
    simp only [List.flatMap_cons, List.length_append, List.length_cons]
    omega

theorem textBody_flatMap (cs : List Char) (fuel : Nat) (acc rest : List Char)
    (hfuel : cs.length < fuel) :
    textBody fuel (some acc) (cs.flatMap quotedChar ++ '"' :: rest) =
      some (some (cs.reverse ++ acc), rest) := by
  induction cs generalizing fuel acc with
  | nil =>
    cases fuel with
    | zero => simp at hfuel
    | succ fuel => rfl
  | cons c cs ih =>
    cases fuel with
    | zero => simp at hfuel
    | succ fuel =>
      rw [List.flatMap_cons, List.append_assoc, textBody_quotedChar,
        ih fuel (c :: acc) (by simpa using hfuel)]
      simp

theorem text?_flatMap (s : String) (rest : List Char) :
    text? (s.toList.flatMap quotedChar ++ '"' :: rest) = some (some s, rest) := by
  have hfuel : s.toList.length < (s.toList.flatMap quotedChar ++ '"' :: rest).length + 1 := by
    have hle := length_le_flatMap_quotedChar s.toList
    simp only [List.length_append]
    omega
  rw [text?, textBody_flatMap _ _ _ _ hfuel]
  simp

theorem toList_quoted (s : String) :
    (quoted s).toList = '"' :: (s.toList.flatMap quotedChar ++ ['"']) := by
  simp [quoted]

theorem name?_quoted (s : String) (rest : List Char) :
    name? ((quoted s).toList ++ ':' :: rest) = some (some s, skipBlanks rest) := by
  simp [toList_quoted, name?, text?_flatMap, skipBlanks, isBlank]

/-! ## The start of a value -/

/-- The text starts with a character that is neither a blank nor closes anything. -/
def Starts (cs : List Char) : Prop :=
  ∃ c more, cs = c :: more ∧ isBlank c = false ∧ c ≠ ']' ∧ c ≠ '}'

theorem skipBlanks_of_starts {cs : List Char} (h : Starts cs) : skipBlanks cs = cs := by
  obtain ⟨c, more, rfl, hblank, -, -⟩ := h
  simp [skipBlanks, hblank]

theorem starts_comma (rest : List Char) : Starts (',' :: rest) :=
  ⟨',', rest, rfl, rfl, by decide, by decide⟩

theorem starts_of_value {fuel : Nat} {cs after : List Char} {v : Json}
    (h : value fuel cs = (v, some after)) : Starts cs := by
  cases fuel with
  | zero => cases h
  | succ fuel =>
    cases cs with
    | nil => cases h
    | cons c more =>
      -- no number starts with such a character, so nothing would be read
      refine ⟨c, more, rfl, ?_, ?_, ?_⟩
      · rw [Bool.eq_false_iff]
        intro hblank
        simp only [isBlank, Bool.or_eq_true, beq_iff_eq] at hblank
        rcases hblank with ((rfl | rfl) | rfl) | rfl <;> cases h
      · rintro rfl
        cases h
      · rintro rfl
        cases h

theorem starts_of_items {fuel : Nat} {cs after : List Char} {vs : List Json}
    (h : items fuel cs = (vs, some after)) : Starts cs := by
  cases fuel with
  | zero => cases h
  | succ fuel =>
    rw [items] at h
    generalize hread : value fuel cs = read at h
    obtain ⟨v, _ | after'⟩ := read
    · cases h
    · exact starts_of_value hread

theorem starts_of_members {fuel : Nat} {cs after : List Char} {ms : List (String × Json)}
    (h : members fuel cs = (ms, some after)) : Starts cs := by
  cases fuel with
  | zero => cases h
  | succ fuel =>
    cases cs with
    | nil => cases h
    | cons c more =>
      by_cases hquote : c = '"'
      · exact ⟨c, more, rfl, by simp [hquote, isBlank], by simp [hquote], by simp [hquote]⟩
      · rw [members, name?.eq_2 _ (by simp [hquote])] at h
        cases h

theorem value_of_number? {cs after : List Char} {v : Json} (h : number? cs = some (v, after))
    (fuel : Nat) : value (fuel + 1) cs = (v, some after) := by
  cases cs with
  | nil => cases h
  | cons c more =>
    have hother : c ≠ '\x7b' ∧ c ≠ '[' ∧ c ≠ '"' ∧ c ≠ 't' ∧ c ≠ 'f' ∧ c ≠ 'n' := by
      refine ⟨?_, ?_, ?_, ?_, ?_, ?_⟩ <;> rintro rfl <;> cases h
    obtain ⟨hbrace, hbracket, hquote, ht, hf, hn⟩ := hother
    simp [value, hbrace, hbracket, hquote, ht, hf, hn, h, leaf]

/-! ## Values -/

mutual
/-- The values that have a text of their own. -/
@[simp] def Plain : Json → Prop
  | .null | .bool _ | .str _ => True
  | .int n => -0x8000000000000000 ≤ n ∧ n < 0x10000000000000000
  | .float x => ReadsBack x
  | .arr items => PlainItems items
  | .obj members => PlainMembers members
  | .flawed | .nameless _ | .broken => False
@[simp] def PlainItems : List Json → Prop
  | [] => True
  | item :: rest => Plain item ∧ PlainItems rest
@[simp] def PlainMembers : List (String × Json) → Prop
  | [] => True
  | (_, value) :: rest => Plain value ∧ PlainMembers rest
end

/-- The texts of the items of an array between its brackets. -/
def itemsText (items : List Json) : List Char :=
  Text.joined ',' ((renderItems items).map String.toList)

/-- The texts of the members of an object between its braces. -/
def membersText (members : List (String × Json)) : List Char :=
  Text.joined ',' ((renderMembers members).map String.toList)

theorem toList_render_arr (items : List Json) :
    (render (.arr items)).toList = '[' :: (itemsText items ++ [']']) := by
  simp [render, itemsText, Text.intercalate_singleton]

theorem toList_render_obj (members : List (String × Json)) :
    (render (.obj members)).toList = '\x7b' :: (membersText members ++ ['\x7d']) := by
  simp [render, membersText, Text.intercalate_singleton]

theorem itemsText_one (item : Json) : itemsText [item] = (render item).toList := rfl

theorem itemsText_cons (item next : Json) (later : List Json) :
    itemsText (item :: next :: later) =
      (render item).toList ++ ',' :: itemsText (next :: later) := rfl

theorem membersText_one (name : String) (v : Json) :
    membersText [(name, v)] = (quoted name).toList ++ ':' :: (render v).toList := by
  simp [membersText, renderMembers, Text.joined]

theorem membersText_cons (name : String) (v : Json) (next : String × Json)
    (later : List (String × Json)) :
    membersText ((name, v) :: next :: later) =
      (quoted name).toList ++ ':' :: ((render v).toList ++ ',' :: membersText (next :: later)) := by
  simp [membersText, renderMembers, Text.joined]

theorem value_arr {fuel : Nat} {cs after : List Char} {vs : List Json}
    (h : items fuel cs = (vs, some after)) :
    value (fuel + 1) ('[' :: cs) = (.arr vs, some after) := by
  have hstarts := starts_of_items h
  rw [value, if_neg (by decide), if_pos (by decide), skipBlanks_of_starts hstarts]
  obtain ⟨c, more, rfl, -, hbracket, -⟩ := hstarts
  split
  next heq => exact absurd (List.cons.inj heq).1 hbracket
  next => rw [h]

theorem value_obj {fuel : Nat} {cs after : List Char} {ms : List (String × Json)}
    (h : members fuel cs = (ms, some after)) :
    value (fuel + 1) ('\x7b' :: cs) = (.obj ms, some after) := by
  have hstarts := starts_of_members h
  rw [value, if_pos (by decide), skipBlanks_of_starts hstarts]
  obtain ⟨c, more, rfl, -, -, hbrace⟩ := hstarts
  split
  next heq => exact absurd (List.cons.inj heq).1 hbrace
  next => rw [h]

-- By recursion on the value. The budget goes down by one for every item or member and for every level
-- of nesting; at least one character of the text goes with each.
mutual
/-- A plain value is read back from its text, and what follows the text is left. -/
theorem value_render (v : Json) (hplain : Plain v) (fuel : Nat) (rest : List Char)
    (hends : Ends rest) (hfuel : (render v).toList.length < fuel) :
    value fuel ((render v).toList ++ rest) = (v, some rest) := by
  obtain ⟨fuel, rfl⟩ := Nat.exists_eq_add_one_of_ne_zero (Nat.ne_zero_of_lt hfuel)
  cases v with
  | null => simp [render, value, word?, leaf]
  | bool b => cases b <;> simp [render, value, word?, leaf]
  | int n =>
    simp only [Plain] at hplain
    exact value_of_number? (number?_append hends (number?_intText hplain.1 hplain.2)) fuel
  | float x =>
    simp only [Plain] at hplain
    exact value_of_number? (number?_append hends hplain) fuel
  | str s =>
    rw [render, toList_quoted, List.cons_append, List.append_assoc, value.eq_3]
    simp [text?_flatMap, leaf]
  | arr items =>
    cases items with
    | nil => rfl
    | cons item later =>
      rw [toList_render_arr] at hfuel ⊢
      simp only [List.length_cons, List.length_append, List.length_nil] at hfuel
      simp only [Plain] at hplain
      have hread := items_render (item :: later) nofun hplain fuel rest (by omega)
      simpa using value_arr hread
  | obj members =>
    cases members with
    | nil => rfl
    | cons m later =>
      rw [toList_render_obj] at hfuel ⊢
      simp only [List.length_cons, List.length_append, List.length_nil] at hfuel
      simp only [Plain] at hplain
      have hread := members_render (m :: later) nofun hplain fuel rest (by omega)
      simpa using value_obj hread
  | flawed => simp [Plain] at hplain
  | nameless v => simp [Plain] at hplain
  | broken => simp [Plain] at hplain
termination_by structural v
theorem items_render (vs : List Json) (hne : vs ≠ []) (hplain : PlainItems vs) (fuel : Nat)
    (rest : List Char) (hfuel : (itemsText vs).length + 1 < fuel) :
    items fuel (itemsText vs ++ ']' :: rest) = (vs, some rest) := by
  obtain ⟨fuel, rfl⟩ := Nat.exists_eq_add_one_of_ne_zero (Nat.ne_zero_of_lt hfuel)
  cases vs with
  | nil => exact absurd rfl hne
  | cons v later =>
    cases later with
    | nil =>
      rw [itemsText_one] at hfuel ⊢
      have hread := value_render v hplain.1 fuel (']' :: rest) (ends_cons (by decide) rest)
        (by omega)
      simp [items, hread, skipBlanks, isBlank]
    | cons next later =>
      rw [itemsText_cons] at hfuel ⊢
      simp only [List.length_append, List.length_cons] at hfuel
      have hread := value_render v hplain.1 fuel
        (',' :: (itemsText (next :: later) ++ ']' :: rest)) (ends_cons (by decide) _) (by omega)
      have hlater := items_render (next :: later) nofun hplain.2 fuel rest (by omega)
      have hstart := skipBlanks_of_starts (starts_of_items hlater)
      rw [List.append_assoc, List.cons_append, items, hread]
      simp only [Option.map_some, skipBlanks_of_starts (starts_comma _), hstart, hlater]
termination_by structural vs
theorem members_render (ms : List (String × Json)) (hne : ms ≠ []) (hplain : PlainMembers ms)
    (fuel : Nat) (rest : List Char) (hfuel : (membersText ms).length + 1 < fuel) :
    members fuel (membersText ms ++ '\x7d' :: rest) = (ms, some rest) := by
  obtain ⟨fuel, rfl⟩ := Nat.exists_eq_add_one_of_ne_zero (Nat.ne_zero_of_lt hfuel)
  cases ms with
  | nil => exact absurd rfl hne
  | cons m later =>
    obtain ⟨name, v⟩ := m
    cases later with
    | nil =>
      rw [membersText_one] at hfuel ⊢
      simp only [List.length_append, List.length_cons] at hfuel
      have hread := value_render v hplain.1 fuel ('\x7d' :: rest) (ends_cons (by decide) rest)
        (by omega)
      have hstart := skipBlanks_of_starts (starts_of_value hread)
      rw [List.append_assoc, List.cons_append, members, name?_quoted, hstart]
      simp [hread, skipBlanks, isBlank]
    | cons next later =>
      rw [membersText_cons] at hfuel ⊢
      simp only [List.length_append, List.length_cons] at hfuel
      have hread := value_render v hplain.1 fuel
        (',' :: (membersText (next :: later) ++ '\x7d' :: rest)) (ends_cons (by decide) _)
        (by omega)
      have hlater := members_render (next :: later) nofun hplain.2 fuel rest (by omega)
      have hstart := skipBlanks_of_starts (starts_of_value hread)
      have hnext := skipBlanks_of_starts (starts_of_members hlater)
      rw [List.append_assoc, List.cons_append, List.append_assoc, List.cons_append, members,
        name?_quoted, hstart]
      simp only [hread, Option.map_some, skipBlanks_of_starts (starts_comma _), hnext, hlater]
termination_by structural ms
end

theorem readFirst_render {v : Json} (h : Plain v) : readFirst (render v) = (v, some []) := by
  have hread := value_render v h ((render v).toList.length + 1) [] ends_nil (Nat.lt_succ_self _)
  rw [List.append_nil] at hread
  rw [readFirst, skipBlanks_of_starts (starts_of_value hread), hread]

end Geocast.Json
