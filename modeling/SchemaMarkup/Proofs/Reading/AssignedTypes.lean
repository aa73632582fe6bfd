import SchemaMarkup.Proofs.Reading.CallSpelling
import SchemaMarkup.Proofs.Reading.FieldLines
import SchemaMarkup.Proofs.Reading.LengthTexts
import SchemaMarkup.Proofs.Text.OuterBlanks

/-!
# Types and what is assigned to them

A type may have a default value behind `=`, with blanks around either. The blanks have no part in
what is set (`Field.setTypeAndDefault_around`). A type other than `enum` holds no `=` of its own, so
where the type and the value are accepted together, the first `=` divides them and each of them is
accepted alone (`Field.setTypeAndDefault_assigned`).
-/

namespace SchemaMarkup

namespace Text

/-! ## Names in front -/

/-- The name at the start of a text ends with the text, if no name follows. -/
theorem takeWhile_trimStart_append (text : Text) {rest : Text}
    (ends : ∀ next, rest.head? = some next ∨ rest.trimStart.head? = some next →
      isNameCharacter next = false) :
    (trimStart (text ++ rest)).takeWhile isNameCharacter =
      text.trimStart.takeWhile isNameCharacter := by
  have noName : rest.trimStart.takeWhile isNameCharacter = [] := by
    cases behind : rest.trimStart with
    | nil => rfl
    | cons next later =>
        exact List.takeWhile_cons_of_neg (by simp [ends next (.inr (by simp [behind]))])
  rw [trimStart, trimStart, List.dropWhile_append]
  split
  · next none => rw [List.isEmpty_iff.mp none, ← trimStart, noName, List.takeWhile_nil]
  · exact (span_append _ fun next starts => ends next (.inl starts)).1

/-! ## Blanks around types -/

section Around

variable {front back : Text} (text : Text)
  (blankFront : ∀ character ∈ front, isBlank character = true)
  (blankBack : ∀ character ∈ back, isBlank character = true)
include blankFront blankBack

theorem takeWhile_around :
    (trimStart (front ++ (text ++ back))).takeWhile isNameCharacter =
      text.trimStart.takeWhile isNameCharacter := by
  rw [trimStart_of_blank _ blankFront, takeWhile_trimStart_append]
  rintro next (starts | starts)
  · exact not_isNameCharacter_of_isBlank (blankBack next (List.mem_of_head? starts))
  · rw [trimStart, List.dropWhile_eq_nil_iff.mpr blankBack] at starts
    contradiction

theorem isSome_cutAt_around {sign : Char} (filled : isBlank sign = false) :
    (cutAt sign (front ++ (text ++ back))).isSome = (text.cutAt sign).isSome := by
  rw [cutAt_around filled text blankFront blankBack, Option.isSome_map]

/-- Blanks around a type with its default value are blanks around the type or the value. -/
theorem splitDefault_around :
    (splitDefault (front ++ (text ++ back))).map (fun parts => (parts.1.trim, parts.2)) =
      text.splitDefault.map fun parts => (parts.1.trim, parts.2) := by
  have whole := trim_around text blankFront blankBack
  rw [splitDefault, splitDefault, cutAt_around (by decide) text blankFront blankBack]
  cases text.cutAt '=' with
  | none => simp [Except.map, whole]
  | some cut =>
      have sameValue : DefaultValue.read (cut.following ++ back) =
          DefaultValue.read cut.following := by
        simp only [DefaultValue.read, trim_append_blank _ blankBack]
      simp only [Option.map_some, takeWhile_around text blankFront blankBack,
        isSome_cutAt_around text blankFront blankBack (show isBlank '|' = false by decide),
        sameValue]
      split
      · simp [Except.map, whole]
      · cases DefaultValue.read cut.following with
        | error fault => rfl
        | ok value => simp [Except.map, trim_blank_append cut.before blankFront]

end Around

end Text

theorem DefaultValue.read_trim (text : Text) :
    DefaultValue.read text.trim = DefaultValue.read text := by
  simp only [read, Text.trim_trim]

/-! ## Signs in types -/

/-- No `=` stands in a length. -/
theorem Length.not_mem_of_read? {text : Text} {length : Length}
    (isRead : read? text = some length) : '=' ∉ text := by
  intro listed
  have inTrimmed : '=' ∈ text.trim := Text.mem_trim listed (by decide)
  have written := read?_eq_some_iff.mp isRead
  generalize text.trim = trimmed at inTrimmed written
  cases written with
  | max letters => exact absurd (mem_of_lowered letters inTrimmed) (by decide)
  | fixed _ numeral => exact numeral.not_mem (by decide) (by decide) inTrimmed
  | decimal _ before behind =>
      rcases List.mem_append.mp inTrimmed with inFirst | behindComma
      · exact before.not_mem (by decide) (by decide) (Text.mem_trim inFirst (by decide))
      · have inSecond := (List.mem_cons.mp behindComma).resolve_left (by decide)
        exact behind.not_mem (by decide) (by decide) (Text.mem_trim inSecond (by decide))

namespace TypeExpression

theorem mem_readMark {text : Text} {character : Char} (listed : character ∈ text) :
    character = '?' ∨ character ∈ (readMark text).2 := by
  unfold readMark
  split
  · exact List.mem_cons.mp listed
  · exact .inr listed

theorem mem_readInner {text : Text} {character : Char} (listed : character ∈ text) :
    character ∈ ['(', ')'] ∨ (∃ inner, (readInner text).1 = some inner ∧ character ∈ inner) ∨
      character ∈ (readInner text).2 := by
  unfold readInner
  split
  · next group =>
      split
      · next inner following isGroup =>
          obtain ⟨_, rfl⟩ := (Text.readGroup_eq_some_iff rfl).mp isGroup
          simp only [List.mem_cons, List.mem_append] at listed
          rcases listed with rfl | inInner | rfl | behind
          · exact .inl (by decide)
          · exact .inr (.inl ⟨inner, rfl, inInner⟩)
          · exact .inl (by decide)
          · exact .inr (.inr behind)
      · exact .inr (.inr listed)
  · exact .inr (.inr listed)

/-- A text that is read as a type is made of a name, parentheses, marks, and what is in the
parentheses and behind the type. -/
theorem mem_of_read? {text : Text} {type : TypeExpression} (isRead : read? text = some type)
    {character : Char} (listed : character ∈ text) (filled : isBlank character = false)
    (noName : isNameCharacter character = false) (noSign : character ∉ ['?', '(', ')']) :
    (∃ inner, type.inner = some inner ∧ character ∈ inner) ∨ character ∈ type.rest := by
  have noMark : character ≠ '?' := by
    rintro rfl
    exact noSign (by decide)
  have noGroup : character ∉ ['(', ')'] := fun inGroup => noSign (List.mem_cons_of_mem _ inGroup)
  rw [← @List.takeWhile_append_dropWhile _ isNameCharacter text, List.mem_append] at listed
  have behindName := listed.resolve_left fun inName =>
    absurd (List.mem_takeWhile_imp inName) (by simp [noName])
  have behindMark := (mem_readMark behindName).resolve_left noMark
  have inRest := (mem_readInner behindMark).resolve_left noGroup
  simp only [read?] at isRead
  split at isRead
  · contradiction
  · cases isRead
    exact inRest.imp_right fun behind =>
      Text.mem_trim ((mem_readMark behind).resolve_left noMark) filled

theorem name_of_read? {text : Text} {type : TypeExpression} (isRead : read? text = some type) :
    type.name = String.ofList (text.takeWhile isNameCharacter) := by
  simp only [read?] at isRead
  split at isRead
  · contradiction
  · cases isRead
    rfl

end TypeExpression

namespace Field

open Text

variable {field refined : Field}

theorem setType_trim (field : Field) (text : Text) :
    field.setType text.trim = field.setType text := by
  simp only [setType, trim_trim]

/-- Blanks around a type with its default value have no part in it. -/
theorem setTypeAndDefault_around (field : Field) (text : Text) {front back : Text}
    (blankFront : ∀ character ∈ front, isBlank character = true)
    (blankBack : ∀ character ∈ back, isBlank character = true) :
    field.setTypeAndDefault (front ++ (text ++ back)) = field.setTypeAndDefault text := by
  have parts_only : ∀ text : Text, field.setTypeAndDefault text =
      (text.splitDefault.map fun parts => (parts.1.trim, parts.2)) >>= fun parts => do
        let typed <- field.setType parts.1
        return { typed with defaultValue := parts.2.or field.defaultValue } := by
    intro text
    rw [setTypeAndDefault]
    cases text.splitDefault with
    | error fault => rfl
    | ok parts => simp [Except.map, bind, Except.bind, setType_trim]
  rw [parts_only, splitDefault_around text blankFront blankBack, ← parts_only]

theorem setTypeAndDefault_trim (field : Field) (text : Text) :
    field.setTypeAndDefault text.trim = field.setTypeAndDefault text := by
  obtain ⟨front, back, whole, blankFront, blankBack⟩ := exists_trim_around text
  conv_rhs => rw [whole]
  exact (field.setTypeAndDefault_around text.trim blankFront blankBack).symm

/-! ## Assigned values -/

/-- No `=` stands in the text of a type other than `enum`. -/
theorem not_mem_of_setType {text : Text} (run : field.setType text = .ok refined)
    (noOptions : spells (text.trimStart.takeWhile isNameCharacter) "enum" = false) :
    '=' ∉ text := by
  intro listed
  obtain ⟨type, isRead, isType⟩ := setType_eq_ok_iff.mp run
  have noEnum : equalIgnoringCase type.name "enum" = false := by
    obtain ⟨front, back, whole, blankFront, blankBack⟩ := exists_trim_around text
    rw [whole, takeWhile_around text.trim blankFront blankBack, trimStart_trim] at noOptions
    rw [TypeExpression.name_of_read? isRead]
    exact noOptions
  rcases isType with ⟨isEnum, _⟩ | ⟨_, noRest, length, areLengths, rfl⟩
  · exact absurd (isEnum.symm.trans noEnum) (by decide)
  · rcases TypeExpression.mem_of_read? isRead (mem_trim listed (by decide)) (by decide) (by decide)
      (by decide) with ⟨inner, isInner, inInner⟩ | behind
    · rw [isInner, Option.mapM_some] at areLengths
      obtain ⟨length, isLength, _⟩ := map_eq_ok_iff.mp areLengths
      rw [readLength] at isLength
      split at isLength
      · next found =>
          exact Length.not_mem_of_read? found (mem_unquote inInner (by decide) (by decide))
      · cases isLength
    · simp [noRest] at behind

/-- A type and a value that are accepted together, with `=` between them, are accepted alone. -/
theorem setTypeAndDefault_assigned {kind value : Text} (noAssign : kind.cutAt '=' = none)
    (noOptions : spells (kind.trimStart.takeWhile isNameCharacter) "enum" = false)
    (run : field.setTypeAndDefault (kind ++ ' ' :: '=' :: value) = .ok refined) :
    ({} : Nesting).afterText (kind ++ [' ']) = {} ∧ ∃ typed defaultValue,
      field.setType kind = .ok typed ∧ DefaultValue.read value = .ok defaultValue ∧
        refined = { typed with defaultValue := some defaultValue } := by
  have sameWord : ∀ more : Text,
      spells ((trimStart (kind ++ ' ' :: '=' :: more)).takeWhile isNameCharacter) "enum" =
        false := by
    intro more
    rw [takeWhile_trimStart_append _ (by rintro next (⟨⟨⟩⟩ | ⟨⟨⟩⟩) <;> decide), noOptions]
  -- A type does not hold the `=` behind it, so the value is cut off there or nothing is accepted.
  have noType : ∀ (more : Text) (typed : Field),
      field.setType (kind ++ ' ' :: '=' :: more) ≠ .ok typed := fun more typed isTyped =>
    not_mem_of_setType isTyped (sameWord more) (by simp)
  have hidden : ({} : Nesting).shows (· == '=') (kind ++ [' ']) = false := by
    rw [Nesting.shows_append, hidden_of_cutAt_eq_none (by decide) noAssign]
    simp
  have whole : ∀ more : Text, kind ++ [' '] ++ '=' :: more = kind ++ ' ' :: '=' :: more :=
    fun more => by simp
  simp only [setTypeAndDefault, bind_eq_ok_iff, pure_eq_ok_iff] at run
  obtain ⟨⟨type, assigned⟩, isSplit, typed, isTyped, rfl⟩ := run
  rw [splitDefault] at isSplit
  split at isSplit
  · cases isSplit
    exact absurd isTyped (noType value typed)
  · next cut found =>
      simp only [sameWord, Bool.false_and, Bool.false_eq_true, if_false, map_eq_ok_iff,
        Prod.mk.injEq] at isSplit
      obtain ⟨defaultValue, isRead, rfl, rfl⟩ := isSplit
      rw [← whole] at found
      rcases cutAt_append_cons hidden found with ⟨atTop, rfl⟩ | ⟨more, inType⟩
      · rw [← setType_trim, trim_append_blank kind isBlank_of_mem_space, setType_trim] at isTyped
        exact ⟨atTop, typed, defaultValue, isTyped, isRead, rfl⟩
      · rw [inType, whole] at isTyped
        exact absurd isTyped (noType more typed)

end Field

end SchemaMarkup
