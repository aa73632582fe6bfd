import SchemaMarkup.Proofs.Reading.CallSpelling
import SchemaMarkup.Proofs.Text.Numerals
import SchemaMarkup.Schema.Length

/-!
# The texts of lengths

A length has one text that is printed and many that are read, with other numerals for its numbers,
blanks around them, and `max` in any case. `Length.Written` says which texts those are without
looking at how they are read. Its constructors exclude one another, so the reader may look for
`max` first and for a comma next: it takes exactly these texts, as the lengths that they are written
for (`Length.read?_eq_some_iff`). The text that is printed is one of them
(`Length.written_render`).
-/

namespace SchemaMarkup

namespace Length

open Numeral (Denotes IsNumeral)

variable {text first second : Text} {length : Length}

/-! ## Printing -/

theorem render_fixed (size : UInt32) :
    (Length.fixed size).render.toList = Nat.toDigits 10 size.toNat := by
  simp [render, toString, Nat.repr]

theorem render_decimal (precision scale : UInt32) :
    (Length.decimal precision scale).render.toList =
      Nat.toDigits 10 precision.toNat ++ ',' :: Nat.toDigits 10 scale.toNat := by
  simp [render, toString, Nat.repr]

theorem isNameCharacter_of_mem_toDigits {number : Nat} {digit : Char}
    (listed : digit ∈ Nat.toDigits 10 number) : isNameCharacter digit = true := by
  have isDigit : digit.isDigit = true :=
    Nat.isDigit_of_mem_toDigits (by decide) (by decide) listed
  simp [isNameCharacter, Char.isAlphanum, isDigit]

/-- The text of a length is made of name characters and commas. -/
theorem mem_render {length : Length} {character : Char}
    (listed : character ∈ length.render.toList) :
    isNameCharacter character = true ∨ character = ',' := by
  cases length with
  | max =>
      have names : Length.max.render.toList.all isNameCharacter = true := by decide
      exact .inl (List.all_eq_true.mp names character listed)
  | fixed size =>
      rw [render_fixed] at listed
      exact .inl (isNameCharacter_of_mem_toDigits listed)
  | decimal precision scale =>
      rw [render_decimal, List.mem_append, List.mem_cons] at listed
      rcases listed with first | comma | second
      · exact .inl (isNameCharacter_of_mem_toDigits first)
      · exact .inr comma
      · exact .inl (isNameCharacter_of_mem_toDigits second)

theorem not_isBlank_of_mem_render {length : Length} {character : Char}
    (listed : character ∈ length.render.toList) : isBlank character = false := by
  rcases mem_render listed with isName | rfl
  · exact not_isBlank_of_isNameCharacter isName
  · decide

/-- A text without blanks around it is one of a length: `max` in any case, or a numeral, or two
numerals around the first comma. -/
inductive Written : Text → Length → Prop where
  | max {text : Text} (letters : text.map Char.toLower = ['m', 'a', 'x']) : Written text .max
  | fixed {text : Text} {size : UInt32} (noComma : ',' ∉ text) (numeral : Denotes text size.toNat) :
      Written text (.fixed size)
  | decimal {first second : Text} {precision scale : UInt32} (noComma : ',' ∉ first)
      (before : Denotes first.trim precision.toNat) (behind : Denotes second.trim scale.toNat) :
      Written (first ++ ',' :: second) (.decimal precision scale)

/-! ## Reading -/

theorem spells_max_iff :
    text.spells "max" = true ↔ text.map Char.toLower = ['m', 'a', 'x'] := by
  rw [Text.spells, equalIgnoringCase_iff, String.toList_ofList]
  rfl

/-- A text that spells `max` holds none but its letters. -/
theorem mem_of_lowered (letters : text.map Char.toLower = ['m', 'a', 'x']) {character : Char}
    (listed : character ∈ text) : character.toLower ∈ ['m', 'a', 'x'] :=
  letters ▸ List.mem_map_of_mem listed

theorem read?_of_lowered (letters : text.trim.map Char.toLower = ['m', 'a', 'x']) :
    read? text = some .max := by
  simp only [read?, spells_max_iff.mpr letters, if_true]

/-- A text is divided at its first comma. -/
theorem divided_at_comma {leading rest : Text} (noComma : ',' ∉ leading)
    (ends : ∀ next, rest.head? = some next → next = ',') :
    (leading ++ rest).takeWhile (· != ',') = leading ∧
      (leading ++ rest).dropWhile (· != ',') = rest := by
  have others : ∀ character ∈ leading, (character != ',') = true := by
    intro character listed
    rw [bne_iff_ne]
    rintro rfl
    exact noComma listed
  rw [List.takeWhile_append_of_pos others, List.dropWhile_append_of_pos others]
  cases rest with
  | nil => exact ⟨List.append_nil _, rfl⟩
  | cons next later => simp [ends next rfl]

theorem read?_of_noComma (noLetters : text.trim.map Char.toLower ≠ ['m', 'a', 'x'])
    (noComma : ',' ∉ text.trim) : read? text = (Numeral.read? text.trim).map .fixed := by
  obtain ⟨taken, dropped⟩ := @divided_at_comma text.trim [] noComma nofun
  rw [List.append_nil] at taken dropped
  simp only [read?, if_neg (mt spells_max_iff.mp noLetters), taken, dropped]

theorem read?_of_comma (whole : text.trim = first ++ ',' :: second) (noComma : ',' ∉ first) :
    read? text = (Numeral.read? first.trim).bind fun precision =>
      (Numeral.read? second.trim).map (.decimal precision) := by
  have noLetters : ¬text.trim.spells "max" = true := by
    rw [spells_max_iff, whole]
    intro letters
    exact absurd (mem_of_lowered letters (List.mem_append_right _ List.mem_cons_self)) (by decide)
  obtain ⟨taken, dropped⟩ := @divided_at_comma first (',' :: second) noComma (by rintro _ ⟨⟩; rfl)
  rw [← whole] at taken dropped
  simp only [read?, if_neg noLetters, taken, dropped]
  cases Numeral.read? first.trim with
  | none => rfl
  | some precision => cases Numeral.read? second.trim <;> rfl

/-- The reader takes the texts of lengths, as the lengths that they are written for. -/
theorem read?_eq_some_iff : read? text = some length ↔ Written text.trim length := by
  constructor
  · intro isRead
    by_cases letters : text.trim.map Char.toLower = ['m', 'a', 'x']
    · rw [read?_of_lowered letters] at isRead
      exact Option.some.inj isRead ▸ .max letters
    · by_cases comma : ',' ∈ text.trim
      · obtain ⟨first, second, whole, noComma⟩ := List.eq_append_cons_of_mem comma
        rw [read?_of_comma whole noComma, Option.bind_eq_some_iff] at isRead
        obtain ⟨precision, isPrecision, isRead⟩ := isRead
        obtain ⟨scale, isScale, rfl⟩ := Option.map_eq_some_iff.mp isRead
        rw [whole]
        exact .decimal noComma (Numeral.read?_eq_some_iff.mp isPrecision)
          (Numeral.read?_eq_some_iff.mp isScale)
      · rw [read?_of_noComma letters comma, Option.map_eq_some_iff] at isRead
        obtain ⟨size, isSize, rfl⟩ := isRead
        exact .fixed comma (Numeral.read?_eq_some_iff.mp isSize)
  · intro written
    generalize whole : text.trim = trimmed at written
    cases written with
    | max letters => exact read?_of_lowered (whole ▸ letters)
    | fixed noComma numeral =>
        -- A numeral has no letters, so it is not read as `max` first.
        have noLetters : trimmed.map Char.toLower ≠ ['m', 'a', 'x'] := by
          rw [numeral.lowered]
          rintro rfl
          exact numeral.not_mem (by decide) (by decide) List.mem_cons_self
        rw [read?_of_noComma (whole ▸ noLetters) (whole ▸ noComma), whole,
          Numeral.read?_eq_some_iff.mpr numeral]
        rfl
    | decimal noComma before behind =>
        rw [read?_of_comma whole noComma, Numeral.read?_eq_some_iff.mpr before,
          Numeral.read?_eq_some_iff.mpr behind]
        rfl

example :
    read? "+010 , 4294967295".toList = some (.decimal 10 4294967295) ∧
      read? "4294967296".toList = none := by
  decide

/-- The text that is printed for a length is written for it. -/
theorem written_render (length : Length) : Written length.render.toList length := by
  have trimmed : ∀ number, Text.trim (Nat.toDigits 10 number) = Nat.toDigits 10 number :=
    fun number => Text.trim_of_filled fun _ listed =>
      not_isBlank_of_isNameCharacter (isNameCharacter_of_mem_toDigits listed)
  have numeral : ∀ number : UInt32, Denotes (Nat.toDigits 10 number.toNat) number.toNat :=
    fun number => Numeral.denotes_toDigits number.toNat
  have noComma : ∀ number : UInt32, ',' ∉ Nat.toDigits 10 number.toNat :=
    fun number => (numeral number).not_mem (by decide) (by decide)
  cases length with
  | max => exact .max (by decide)
  | fixed size =>
      rw [render_fixed]
      exact .fixed (noComma size) (numeral size)
  | decimal precision scale =>
      rw [render_decimal]
      refine .decimal (noComma precision) ?_ ?_
      · rw [trimmed]
        exact numeral precision
      · rw [trimmed]
        exact numeral scale

/-- The text that is printed for a length is read as the length. -/
theorem read?_render (length : Length) : read? length.render.toList = some length := by
  rw [read?_eq_some_iff, Text.trim_of_filled fun _ => not_isBlank_of_mem_render]
  exact written_render length

/-- Whether a text is one of a length is seen from its numerals. -/
theorem exists_written_iff :
    (∃ length, Written text length) ↔
      text.map Char.toLower = ['m', 'a', 'x'] ∨ (',' ∉ text ∧ IsNumeral text) ∨
        ∃ first second : Text, text = first ++ ',' :: second ∧ ',' ∉ first ∧
          IsNumeral first.trim ∧ IsNumeral second.trim := by
  constructor
  · rintro ⟨_, letters | ⟨noComma, numeral⟩ | ⟨noComma, before, behind⟩⟩
    · exact .inl letters
    · exact .inr (.inl ⟨noComma, Numeral.isNumeral_iff.mpr ⟨_, numeral⟩⟩)
    · exact .inr (.inr ⟨_, _, rfl, noComma, Numeral.isNumeral_iff.mpr ⟨_, before⟩,
        Numeral.isNumeral_iff.mpr ⟨_, behind⟩⟩)
  · rintro (letters | ⟨noComma, numeral⟩ | ⟨first, second, rfl, noComma, before, behind⟩)
    · exact ⟨_, .max letters⟩
    · obtain ⟨size, numeral⟩ := Numeral.isNumeral_iff.mp numeral
      exact ⟨_, .fixed noComma numeral⟩
    · obtain ⟨precision, before⟩ := Numeral.isNumeral_iff.mp before
      obtain ⟨scale, behind⟩ := Numeral.isNumeral_iff.mp behind
      exact ⟨_, .decimal noComma before behind⟩

/-- The text that is printed for a length is read as the length. A text is read at all exactly if it
is, but for blanks around it, `max` in any case, or a numeral, or two of them around its first
comma, and the length has the numbers that the numerals denote. -/
theorem read?_readsWritten :
    (∀ length : Length, read? length.render.toList = some length) ∧
      ∀ text : Text, (∀ length, read? text = some length ↔ Written text.trim length) ∧
        ((read? text).isSome = true ↔
          text.trim.map Char.toLower = ['m', 'a', 'x'] ∨ (',' ∉ text.trim ∧ IsNumeral text.trim) ∨
            ∃ first second : Text, text.trim = first ++ ',' :: second ∧ ',' ∉ first ∧
              IsNumeral first.trim ∧ IsNumeral second.trim) := by
  refine ⟨read?_render, fun text => ⟨fun _ => read?_eq_some_iff, ?_⟩⟩
  rw [Option.isSome_iff_exists, ← exists_written_iff]
  exact exists_congr fun _ => read?_eq_some_iff

end Length

end SchemaMarkup
