import Geocast.Topic
import Mathlib.Data.List.Forall2

/-!
# The texts of topics

A text is cut at its slashes. Each piece must stand for a level: `+` or `#` alone, or a text with
neither character in it. A `#` may only be the last piece. Those texts and no others are read as
topics, and a topic that was read is written as the text it came from.

* `Level.Written`: a piece that stands for a level.
* `Topic.textPieces`: the pieces of a text between slashes.
* `display_of_parse`: a topic that is read is written as it was.
* `parse_of_written`, `parse_of_not_written`: what is read, and how the rest is refused.
* `parse_exact`: the accepted texts, the refusals, and reading what was written.
-/
namespace Geocast

namespace Level

/-! ## Levels -/

/-- A piece of text that stands for a level: a wildcard alone, or a text with no wildcard character
in it. -/
def Written (piece : String) : Prop :=
  piece = "+" ∨ piece = "#" ∨ '+' ∉ piece.toList ∧ '#' ∉ piece.toList

instance : DecidablePred Written := fun piece =>
  inferInstanceAs (Decidable (piece = "+" ∨ piece = "#" ∨ '+' ∉ piece.toList ∧ '#' ∉ piece.toList))

theorem hasWildcard_eq_false_iff {s : String} :
    hasWildcard s = false ↔ '+' ∉ s.toList ∧ '#' ∉ s.toList := by
  unfold hasWildcard
  rw [List.any_eq_false]
  constructor
  · intro h
    exact ⟨fun hmem => h _ hmem rfl, fun hmem => h _ hmem rfl⟩
  · intro ⟨hplus, hhash⟩ c hc heq
    rw [Bool.or_eq_true, beq_iff_eq, beq_iff_eq] at heq
    rcases heq with rfl | rfl
    · exact hplus hc
    · exact hhash hc

theorem display_of_parse {s : String} {l : Level} (h : Level.parse s = .ok l) :
    l.display = s := by
  unfold Level.parse at h
  split at h
  next hs =>
    cases h
    exact (eq_of_beq hs).symm
  split at h
  next hs =>
    cases h
    exact (eq_of_beq hs).symm
  split at h
  next hs =>
    cases h
    exact (eq_of_beq hs).symm
  split at h
  · cases h
  · cases h
    rfl

theorem isValid_of_parse {s : String} {l : Level} (h : Level.parse s = .ok l) :
    l.isValid = true := by
  unfold Level.parse at h
  split at h
  · cases h
    rfl
  split at h
  · cases h
    rfl
  split at h
  · cases h
    rfl
  split at h
  · cases h
  next hplain =>
    cases h
    simpa [isValid] using hplain

theorem parse_of_written {piece : String} (h : Written piece) : ∃ l, parse piece = .ok l := by
  rcases h with rfl | rfl | hplain
  · exact ⟨.single, rfl⟩
  · exact ⟨.multi, rfl⟩
  · unfold parse
    rw [hasWildcard_eq_false_iff.2 hplain]
    split
    · exact ⟨_, rfl⟩
    split
    · exact ⟨_, rfl⟩
    split <;> exact ⟨_, rfl⟩

/-- Any other piece is refused by its text. -/
theorem parse_of_not_written {piece : String} (h : ¬ Written piece) :
    parse piece = .error (.invalidLevel piece) := by
  unfold Written at h
  rw [not_or, not_or, ← hasWildcard_eq_false_iff, Bool.not_eq_false] at h
  have hblank : piece ≠ "" := by
    intro heq
    subst heq
    exact absurd h.2.2 (by decide)
  simp [parse, h.1, h.2.1, h.2.2, hblank]

theorem display_eq_hash_iff {l : Level} (hvalid : l.isValid = true) :
    l.display = "#" ↔ l = .multi := by
  cases l with
  | normal text =>
    refine iff_of_false ?_ Level.noConfusion
    intro heq
    subst heq
    exact absurd hvalid (by decide)
  | blank => exact iff_of_false (by decide) Level.noConfusion
  | single => exact iff_of_false (by decide) Level.noConfusion
  | multi => exact iff_of_true rfl rfl

theorem written_of_parse {piece : String} {l : Level} (h : parse piece = .ok l) :
    Written piece := by
  by_contra hnot
  rw [parse_of_not_written hnot] at h
  cases h

/-- A level is read from its own text, unless that text is empty and the level is not the blank
one. -/
theorem parse_display {l : Level} (hvalid : l.isValid = true)
    (hsome : ∀ text, l = .normal text → text ≠ "") : parse l.display = .ok l := by
  cases l with
  | normal text =>
    have hplain : hasWildcard text = false := by simpa [isValid] using hvalid
    have hplus : text ≠ "+" := by
      intro heq
      subst heq
      exact absurd hplain (by decide)
    have hhash : text ≠ "#" := by
      intro heq
      subst heq
      exact absurd hplain (by decide)
    have hblank := hsome text rfl
    simp [display, parse, hplus, hhash, hblank, hplain]
  | _ => rfl

end Level

namespace Topic

/-! ## Topics that are read -/

/-- The pieces of a text between slashes. -/
def textPieces (s : String) : List String := (s.toList.splitOn '/').map String.ofList

theorem parse_eq (s : String) : parse s =
    ((textPieces s).mapM Level.parse).bind fun levels =>
      if isValid ⟨levels⟩ then .ok ⟨levels⟩ else .error (.invalidTopic s) := by
  unfold parse segments textPieces
  rw [Text.pieces_eq_splitOn, List.mapM_map]
  rfl

theorem intercalate_textPieces (s : String) : "/".intercalate (textPieces s) = s := by
  apply String.toList_injective
  have htexts : (textPieces s).map String.toList = s.toList.splitOn '/' := by
    simp [textPieces, Function.comp_def]
  rw [String.toList_intercalate, htexts]
  exact List.intercalate_splitOn '/'

theorem mapM_parse_iff {pieces : List String} {levels : List Level} :
    pieces.mapM Level.parse = .ok levels ↔
      List.Forall₂ (fun piece l => Level.parse piece = .ok l) pieces levels := by
  induction pieces generalizing levels with
  | nil => cases levels <;> simp [pure, Except.pure]
  | cons piece pieces ih =>
    rw [List.mapM_cons]
    cases hlevel : Level.parse piece with
    | error e => cases levels <;> simp [hlevel, bind, Except.bind]
    | ok l =>
      cases hlater : pieces.mapM Level.parse with
      | error e => cases levels <;> simp [hlevel, ← ih, hlater, bind, Except.bind]
      | ok later =>
        cases levels <;> simp [hlevel, ← ih, hlater, bind, Except.bind, pure, Except.pure]

theorem map_display_of_forall₂ {pieces : List String} {levels : List Level}
    (h : List.Forall₂ (fun piece l => Level.parse piece = .ok l) pieces levels) :
    levels.map Level.display = pieces := by
  induction h with
  | nil => rfl
  | cons hlevel _ ih => rw [List.map_cons, Level.display_of_parse hlevel, ih]

theorem all_isValid_of_forall₂ {pieces : List String} {levels : List Level}
    (h : List.Forall₂ (fun piece l => Level.parse piece = .ok l) pieces levels) :
    levels.all Level.isValid = true := by
  induction h with
  | nil => rfl
  | cons hlevel _ ih => rw [List.all_cons, Level.isValid_of_parse hlevel, ih, Bool.and_self]

theorem exists_levels {pieces : List String} (h : ∀ piece ∈ pieces, Level.Written piece) :
    ∃ levels, List.Forall₂ (fun piece l => Level.parse piece = .ok l) pieces levels := by
  induction pieces with
  | nil => exact ⟨[], .nil⟩
  | cons piece pieces ih =>
    rw [List.forall_mem_cons] at h
    obtain ⟨l, hlevel⟩ := Level.parse_of_written h.1
    obtain ⟨levels, hlevels⟩ := ih h.2
    exact ⟨l :: levels, .cons hlevel hlevels⟩

theorem written_of_forall₂ {pieces : List String} {levels : List Level}
    (h : List.Forall₂ (fun piece l => Level.parse piece = .ok l) pieces levels) :
    ∀ piece ∈ pieces, Level.Written piece := by
  induction h with
  | nil => exact List.forall_mem_nil _
  | cons hlevel _ ih => exact List.forall_mem_cons.2 ⟨Level.written_of_parse hlevel, ih⟩

/-! ## Where a `#` may stand -/

theorem multiOnlyLast_iff {levels : List Level} :
    multiOnlyLast levels = true ↔ .multi ∉ levels.dropLast := by
  induction levels with
  | nil => exact iff_of_true rfl List.not_mem_nil
  | cons l rest ih =>
    cases rest with
    | nil => exact iff_of_true rfl List.not_mem_nil
    | cons m rest =>
      change (l != .multi && multiOnlyLast (m :: rest)) = true ↔ _
      rw [Bool.and_eq_true, bne_iff_ne, ih, List.dropLast_cons_cons, List.mem_cons, not_or,
        ne_comm]

/-- The levels that are read make a valid topic when no piece before the last is a `#`. -/
theorem isValid_iff_of_forall₂ {pieces : List String} {levels : List Level}
    (h : List.Forall₂ (fun piece l => Level.parse piece = .ok l) pieces levels) :
    isValid ⟨levels⟩ = true ↔ "#" ∉ pieces.dropLast := by
  have hall := all_isValid_of_forall₂ h
  have hhash : "#" ∈ pieces.dropLast ↔ .multi ∈ levels.dropLast := by
    rw [← map_display_of_forall₂ h, ← List.map_dropLast, List.mem_map]
    constructor
    · intro ⟨l, hl, hdisplay⟩
      have hvalid := List.all_eq_true.1 hall l (List.dropLast_subset _ hl)
      exact (Level.display_eq_hash_iff hvalid).1 hdisplay ▸ hl
    · intro hl
      exact ⟨.multi, hl, rfl⟩
  rw [isValid, hall, Bool.true_and, multiOnlyLast_iff, hhash]

theorem isValid_of_parse {text : String} {topic : Topic} (h : parse text = .ok topic) :
    topic.isValid = true := by
  simp only [parse, bind, Except.bind] at h
  split at h
  · cases h
  · split at h
    next hvalid =>
      cases h
      exact hvalid
    next => cases h

theorem multiOnlyLast_of_isValid {topic : Topic} (h : topic.isValid = true) :
    multiOnlyLast topic.levels = true := by
  rw [isValid, Bool.and_eq_true] at h
  exact h.2

/-! ## What is read, and what is refused -/

theorem forall₂_of_parse {text : String} {topic : Topic} (h : parse text = .ok topic) :
    List.Forall₂ (fun piece l => Level.parse piece = .ok l) (textPieces text) topic.levels := by
  rw [parse_eq] at h
  cases hlevels : (textPieces text).mapM Level.parse with
  | error e =>
    rw [hlevels] at h
    cases h
  | ok levels =>
    rw [hlevels, Except.bind] at h
    split at h
    · cases h
      exact mapM_parse_iff.1 hlevels
    · cases h

theorem display_of_parse {text : String} {topic : Topic} (h : parse text = .ok topic) :
    topic.display = text := by
  rw [display, map_display_of_forall₂ (forall₂_of_parse h), intercalate_textPieces]

theorem parse_of_forall₂ {text : String} {levels : List Level}
    (h : List.Forall₂ (fun piece l => Level.parse piece = .ok l) (textPieces text) levels) :
    parse text =
      if "#" ∉ (textPieces text).dropLast then .ok ⟨levels⟩ else .error (.invalidTopic text) := by
  rw [parse_eq, mapM_parse_iff.2 h, Except.bind]
  simp only [isValid_iff_of_forall₂ h]

/-- A text is refused by its first piece that does not stand for a level. -/
theorem parse_of_mixed {text piece : String} {before after : List String}
    (htext : textPieces text = before ++ piece :: after)
    (hbefore : ∀ p ∈ before, Level.Written p) (hpiece : ¬ Level.Written piece) :
    parse text = .error (.invalidLevel piece) := by
  obtain ⟨levels, hlevels⟩ := exists_levels hbefore
  rw [parse_eq, htext, List.mapM_append, List.mapM_cons, mapM_parse_iff.2 hlevels,
    Level.parse_of_not_written hpiece]
  rfl

theorem all_written_or_mixed (pieces : List String) :
    (∀ piece ∈ pieces, Level.Written piece) ∨
      ∃ before piece after, pieces = before ++ piece :: after ∧
        (∀ p ∈ before, Level.Written p) ∧ ¬ Level.Written piece := by
  cases hfind : pieces.find? (fun piece => !decide (Level.Written piece)) with
  | none =>
    left
    intro piece hpiece
    simpa using List.find?_eq_none.1 hfind piece hpiece
  | some piece =>
    right
    obtain ⟨hmixed, before, after, heq, hbefore⟩ := List.find?_eq_some_iff_append.1 hfind
    refine ⟨before, piece, after, heq, fun p hp => ?_, by simpa using hmixed⟩
    simpa using hbefore p hp

/-! ## Reading what was written -/

theorem textPieces_display {topic : Topic} (hne : topic.levels ≠ [])
    (hslash : ∀ l ∈ topic.levels, '/' ∉ l.display.toList) :
    textPieces topic.display = topic.levels.map Level.display := by
  have hsplit : topic.display.toList.splitOn '/' =
      topic.levels.map (fun l => l.display.toList) := by
    rw [display, String.toList_intercalate, List.map_map]
    refine List.splitOn_intercalate '/' ?_ (by simpa using hne)
    intro cs hcs
    obtain ⟨l, hl, rfl⟩ := List.mem_map.1 hcs
    exact hslash l hl
  rw [textPieces, hsplit, List.map_map]
  simp [Function.comp_def]

/-- A valid topic is read from its own text when its levels with text have some, without a
slash. -/
theorem parse_display {topic : Topic} (hne : topic.levels ≠ []) (hvalid : topic.isValid = true)
    (htexts : ∀ text, .normal text ∈ topic.levels → text ≠ "" ∧ '/' ∉ text.toList) :
    parse topic.display = .ok topic := by
  have hslash : ∀ l ∈ topic.levels, '/' ∉ l.display.toList := by
    intro l hl
    cases l with
    | normal text => exact (htexts text hl).2
    | _ => decide
  have hpieces := textPieces_display hne hslash
  have hlevels : List.Forall₂ (fun piece l => Level.parse piece = .ok l)
      (textPieces topic.display) topic.levels := by
    rw [hpieces, List.forall₂_map_left_iff, List.forall₂_same]
    intro l hl
    have hlevel : l.isValid = true := by
      rw [isValid, Bool.and_eq_true, List.all_eq_true] at hvalid
      exact hvalid.1 l hl
    refine Level.parse_display hlevel ?_
    intro text heq
    subst heq
    exact (htexts text hl).1
  rw [parse_of_forall₂ hlevels, if_pos ((isValid_iff_of_forall₂ hlevels).1 hvalid)]

/-- Exactly the texts are read whose pieces all stand for levels, with `#` at most as the last one;
the topic is valid, its levels are written as the pieces and the topic as the text. A text is
refused by its first piece that stands for no level, and only where there is none by a `#` that is
not last. Conversely, a valid topic is read from its own text if it has levels, and those with text
have some and no slash in it. -/
theorem parse_exact :
    (∀ text : String,
      ((∃ topic, parse text = .ok topic) ↔
        (∀ piece ∈ textPieces text, Level.Written piece) ∧ "#" ∉ (textPieces text).dropLast) ∧
      (∀ topic, parse text = .ok topic →
        topic.isValid = true ∧ topic.levels.map Level.display = textPieces text ∧
          topic.display = text) ∧
      ∀ e, parse text = .error e →
        (∃ before piece after, textPieces text = before ++ piece :: after ∧
          (∀ p ∈ before, Level.Written p) ∧ ¬ Level.Written piece ∧ e = .invalidLevel piece) ∨
        (∀ piece ∈ textPieces text, Level.Written piece) ∧ e = .invalidTopic text) ∧
    ∀ topic : Topic, topic.levels ≠ [] → topic.isValid = true →
      (∀ text, .normal text ∈ topic.levels → text ≠ "" ∧ '/' ∉ text.toList) →
        parse topic.display = .ok topic := by
  refine ⟨fun text => ⟨⟨?_, ?_⟩, ?_, ?_⟩, fun topic => parse_display⟩
  · intro ⟨topic, h⟩
    have hlevels := forall₂_of_parse h
    exact ⟨written_of_forall₂ hlevels, (isValid_iff_of_forall₂ hlevels).1 (isValid_of_parse h)⟩
  · intro ⟨hwritten, hhash⟩
    obtain ⟨levels, hlevels⟩ := exists_levels hwritten
    exact ⟨⟨levels⟩, by rw [parse_of_forall₂ hlevels, if_pos hhash]⟩
  · intro topic h
    exact ⟨isValid_of_parse h, map_display_of_forall₂ (forall₂_of_parse h), display_of_parse h⟩
  · intro e h
    rcases all_written_or_mixed (textPieces text) with hwritten | ⟨before, piece, after, hmixed⟩
    · obtain ⟨levels, hlevels⟩ := exists_levels hwritten
      rw [parse_of_forall₂ hlevels] at h
      split at h
      · cases h
      · cases h
        exact .inr ⟨hwritten, rfl⟩
    · rw [parse_of_mixed hmixed.1 hmixed.2.1 hmixed.2.2] at h
      cases h
      exact .inl ⟨before, piece, after, hmixed.1, hmixed.2.1, hmixed.2.2, rfl⟩

/-- A text with a blank level and both wildcards is read, and a topic with blank levels at both ends
is read from its own text. -/
theorem parse_exact_blank :
    (∃ topic, parse "sport//+/#" = .ok topic) ∧
      parse (⟨[.blank, .normal "sport", .single, .blank]⟩ : Topic).display =
        .ok ⟨[.blank, .normal "sport", .single, .blank]⟩ := by
  constructor
  · exact (parse_exact.1 "sport//+/#").1.2 ⟨by decide, by decide⟩
  · refine parse_exact.2 _ (by decide) (by decide) ?_
    intro text htext
    obtain rfl : text = "sport" := by simpa using htext
    decide

end Topic

end Geocast
