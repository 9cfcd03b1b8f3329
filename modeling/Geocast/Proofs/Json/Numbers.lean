import Geocast.Json.Reader
import Geocast.Json.Writer

/-!
# Numbers that read back

What is read of a number does not depend on what stands after it, as long as that cannot be a part
of the number. Integers of at most 64 bits are read back from the text that is written of them.

* `Ends`: a text that cannot continue a number.
* `number?_append`: what is read of a number in front of such a text.
* `ReadsBack`: a double that is read back from its text.
* `number?_intText`: integers are read back.
-/
namespace Geocast.Json

/-- The text does not start with a character that can stand inside a number. -/
def Ends (rest : List Char) : Prop :=
  ∀ c ∈ rest.head?, c.isDigit = false ∧ c ≠ '.' ∧ c ≠ 'e' ∧ c ≠ 'E'

theorem ends_nil : Ends [] := nofun

theorem ends_cons {c : Char} (h : c.isDigit = false ∧ c ≠ '.' ∧ c ≠ 'e' ∧ c ≠ 'E')
    (rest : List Char) : Ends (c :: rest) := by
  intro d hd
  obtain rfl : c = d := Option.some.inj hd
  exact h

variable {rest : List Char}

/-! ## Digits -/

theorem takeWhile_isDigit_append (h : Ends rest) (cs : List Char) :
    (cs ++ rest).takeWhile Char.isDigit = cs.takeWhile Char.isDigit := by
  induction cs with
  | nil =>
    cases rest with
    | nil => rfl
    | cons c more => simp [(h c rfl).1]
  | cons c cs ih => by_cases hc : c.isDigit <;> simp [hc, ih]

theorem dropWhile_isDigit_append (h : Ends rest) (cs : List Char) :
    (cs ++ rest).dropWhile Char.isDigit = cs.dropWhile Char.isDigit ++ rest := by
  induction cs with
  | nil =>
    cases rest with
    | nil => rfl
    | cons c more => simp [(h c rfl).1]
  | cons c cs ih => by_cases hc : c.isDigit <;> simp [hc, ih]

theorem digits?_append {cs ds after : List Char} (h : Ends rest)
    (hread : digits? cs = some (ds, after)) :
    digits? (cs ++ rest) = some (ds, after ++ rest) := by
  simp only [digits?, takeWhile_isDigit_append h, dropWhile_isDigit_append h] at hread ⊢
  split at hread
  · cases hread
  next hsome =>
    cases hread
    rw [if_neg hsome]

theorem wholeDigits?_append {cs ds after : List Char} (h : Ends rest)
    (hread : wholeDigits? cs = some (ds, after)) :
    wholeDigits? (cs ++ rest) = some (ds, after ++ rest) := by
  cases cs with
  | nil => cases hread
  | cons c cs =>
    by_cases hc : c = '0'
    · subst hc
      simp only [wholeDigits?, List.cons_append, takeWhile_isDigit_append h] at hread ⊢
      split at hread
      next hone =>
        cases hread
        rw [if_pos hone]
      next => cases hread
    · rw [wholeDigits?.eq_2 _ (by simp [hc])] at hread
      rw [wholeDigits?.eq_2 _ (by simp [hc])]
      exact digits?_append h hread

/-! ## Fraction and exponent -/

theorem fraction?_append {cs after : List Char} {ds : Option (List Char)} (h : Ends rest)
    (hread : fraction? cs = some (ds, after)) :
    fraction? (cs ++ rest) = some (ds, after ++ rest) := by
  cases cs with
  | nil =>
    cases hread
    cases rest with
    | nil => rfl
    | cons c more => exact fraction?.eq_2 _ (by simp [(h c rfl).2.1])
  | cons c cs =>
    by_cases hc : c = '.'
    · subst hc
      rw [fraction?, Option.map_eq_some_iff] at hread
      obtain ⟨⟨found, after⟩, hfound, heq⟩ := hread
      cases heq
      rw [List.cons_append, fraction?, digits?_append h hfound]
      rfl
    · rw [fraction?.eq_2 _ (by simp [hc])] at hread
      cases hread
      exact fraction?.eq_2 _ (by simp [hc])

/-- The sign of an exponent, and what follows it. -/
def exponentSign (cs : List Char) : Bool × List Char :=
  match cs with
  | '-' :: more => (true, more)
  | '+' :: more => (false, more)
  | _ => (false, cs)

theorem exponentSign_append {cs : List Char} (hne : cs ≠ []) (rest : List Char) :
    exponentSign (cs ++ rest) = ((exponentSign cs).1, (exponentSign cs).2 ++ rest) := by
  cases cs with
  | nil => exact absurd rfl hne
  | cons c cs =>
    by_cases hminus : c = '-'
    · subst hminus
      rfl
    · by_cases hplus : c = '+'
      · subst hplus
        rfl
      · rw [List.cons_append, exponentSign.eq_3 _ (by simp [hminus]) (by simp [hplus]),
          exponentSign.eq_3 _ (by simp [hminus]) (by simp [hplus])]
        rfl

theorem exponent?_cons (c : Char) (cs : List Char) :
    exponent? (c :: cs) =
      if c == 'e' || c == 'E' then
        (digits? (exponentSign cs).2).map fun (ds, after) =>
          (some (if (exponentSign cs).1 then -(Decimal.ofDigits ds : Int) else Decimal.ofDigits ds),
            after)
      else some (none, c :: cs) := rfl

theorem exponent?_append {cs after : List Char} {n : Option Int} (h : Ends rest)
    (hread : exponent? cs = some (n, after)) :
    exponent? (cs ++ rest) = some (n, after ++ rest) := by
  cases cs with
  | nil =>
    cases hread
    cases rest with
    | nil => rfl
    | cons c more => simp [exponent?_cons, (h c rfl).2.2.1, (h c rfl).2.2.2]
  | cons c cs =>
    rw [exponent?_cons] at hread
    rw [List.cons_append, exponent?_cons]
    split at hread
    next hc =>
      rw [Option.map_eq_some_iff] at hread
      obtain ⟨⟨ds, after⟩, hds, heq⟩ := hread
      cases heq
      have hne : cs ≠ [] := by
        rintro rfl
        cases hds
      rw [if_pos hc, exponentSign_append hne, digits?_append h hds]
      rfl
    next hc =>
      cases hread
      rw [if_neg hc]
      rfl

/-! ## Numbers -/

/-- The number token after the sign. -/
def unsigned? (negative : Bool) (cs : List Char) : Option (Json × List Char) := do
  let (whole, cs) ← wholeDigits? cs
  let (fraction, cs) ← fraction? cs
  let (exponent, cs) ← exponent? cs
  pure (NumberToken.value ⟨negative, whole, fraction, exponent⟩, cs)

theorem number?_minus (cs : List Char) : number? ('-' :: cs) = unsigned? true cs := rfl

theorem number?_of_ne {c : Char} (hc : c ≠ '-') (cs : List Char) :
    number? (c :: cs) = unsigned? false (c :: cs) := by
  unfold number?
  split
  next heq =>
    split at heq
    next hminus =>
      cases hminus
      exact absurd rfl hc
    next =>
      cases heq
      rfl

theorem unsigned?_append {negative : Bool} {cs after : List Char} {v : Json} (h : Ends rest)
    (hread : unsigned? negative cs = some (v, after)) :
    unsigned? negative (cs ++ rest) = some (v, after ++ rest) := by
  simp only [unsigned?, Option.bind_eq_bind, Option.bind_eq_some_iff] at hread
  obtain ⟨⟨whole, cs₁⟩, hwhole, ⟨fraction, cs₂⟩, hfraction, ⟨exponent, cs₃⟩, hexponent, heq⟩ :=
    hread
  cases heq
  simp [unsigned?, wholeDigits?_append h hwhole, fraction?_append h hfraction,
    exponent?_append h hexponent]

/-- What is read of a number does not depend on what stands after it. -/
theorem number?_append {cs after : List Char} {v : Json} (h : Ends rest)
    (hread : number? cs = some (v, after)) : number? (cs ++ rest) = some (v, after ++ rest) := by
  cases cs with
  | nil => cases hread
  | cons c cs =>
    by_cases hc : c = '-'
    · subst hc
      exact unsigned?_append h hread
    · rw [number?_of_ne hc] at hread
      rw [List.cons_append, number?_of_ne hc]
      exact unsigned?_append h hread

/-- The double is read back from the text that is written of it. -/
def ReadsBack (x : Float) : Prop := number? (floatText x).toList = some (.float x, [])

/-! ## Integers -/

theorem digits?_toDigits (n : Nat) :
    digits? (Nat.toDigits 10 n) = some (Nat.toDigits 10 n, []) := by
  have hall : ∀ c ∈ Nat.toDigits 10 n, c.isDigit = true :=
    fun c hc => Nat.isDigit_of_mem_toDigits (by decide) (by decide) hc
  have htake : (Nat.toDigits 10 n ++ []).takeWhile Char.isDigit = Nat.toDigits 10 n ++ [] :=
    List.takeWhile_append_of_pos hall
  have hdrop : (Nat.toDigits 10 n ++ []).dropWhile Char.isDigit = [] :=
    List.dropWhile_append_of_pos hall
  rw [List.append_nil] at htake hdrop
  simp [digits?, htake, hdrop, Nat.toDigits_ne_nil]

/-- Only zero is written with a leading zero. -/
theorem head?_toDigits_ne {n : Nat} (h : n ≠ 0) : (Nat.toDigits 10 n).head? ≠ some '0' := by
  induction n using Nat.strongRecOn with
  | ind n ih =>
    by_cases hn : n < 10
    · have hchar : ∀ m < 10, m ≠ 0 → Nat.digitChar m ≠ '0' := by decide
      rw [Nat.toDigits_of_lt_base hn]
      simpa using hchar n hn h
    · have hne : (Nat.toDigits 10 (n / 10)).head? ≠ none := by simp [Nat.toDigits_ne_nil]
      rw [Nat.toDigits_of_base_le (by decide) (by omega), List.head?_append,
        Option.or_of_isSome (Option.isSome_iff_ne_none.2 hne)]
      exact ih (n / 10) (by omega) (by omega)

theorem wholeDigits?_toDigits (n : Nat) :
    wholeDigits? (Nat.toDigits 10 n) = some (Nat.toDigits 10 n, []) := by
  by_cases hn : n = 0
  · subst hn
    rfl
  · rw [wholeDigits?.eq_2, digits?_toDigits]
    intro rest heq
    exact head?_toDigits_ne hn (by rw [heq]; rfl)

theorem unsigned?_toDigits (negative : Bool) (n : Nat) :
    unsigned? negative (Nat.toDigits 10 n) =
      some (NumberToken.value ⟨negative, Nat.toDigits 10 n, none, none⟩, []) := by
  simp [unsigned?, wholeDigits?_toDigits, fraction?, exponent?]

theorem ofDigits_toDigits (n : Nat) : Decimal.ofDigits (Nat.toDigits 10 n) = n :=
  Nat.ofDigitChars_ten_toDigits

theorem number?_intText {n : Int} (hlow : -0x8000000000000000 ≤ n)
    (hhigh : n < 0x10000000000000000) :
    number? (intText n).toList = some (.int n, []) := by
  by_cases hn : n < 0
  · have htext : (intText n).toList = '-' :: Nat.toDigits 10 n.natAbs := by
      simp [intText, hn, Decimal.digitsText]
    rw [htext, number?_minus, unsigned?_toDigits]
    have hbound : n.natAbs ≠ 0 ∧ n.natAbs ≤ 0x8000000000000000 := by omega
    simp only [NumberToken.value, ofDigits_toDigits, if_pos hbound, if_true]
    rw [show -(n.natAbs : Int) = n by omega]
  · have htext : (intText n).toList = Nat.toDigits 10 n.natAbs := by
      simp [intText, hn, Decimal.digitsText]
    have hne : Nat.toDigits 10 n.natAbs ≠ [] := Nat.toDigits_ne_nil
    obtain ⟨c, cs, hcs⟩ := List.exists_cons_of_ne_nil hne
    have hmem : c ∈ Nat.toDigits 10 n.natAbs := by simp [hcs]
    have hdigit : c.isDigit = true := Nat.isDigit_of_mem_toDigits (by decide) (by decide) hmem
    have hc : c ≠ '-' := by
      rintro rfl
      cases hdigit
    rw [htext, hcs, number?_of_ne hc, ← hcs, unsigned?_toDigits]
    have hbound : n.natAbs < 0x10000000000000000 := by omega
    simp only [NumberToken.value, ofDigits_toDigits, if_pos hbound]
    rw [show (n.natAbs : Int) = n by omega]
    rfl

end Geocast.Json
