import SchemaMarkup.Proofs.Reading.TypeProperties

/-!
# Options of a type

The options of a field of type `enum` stand behind the type, with bars between them, in parentheses
or not. A value of an option stands behind `=` as a default value does. It is never taken for one:
both spellings give the field the same options and no default value, and behind the parentheses a
default value may follow (`OptionParts.read_options`).
-/

namespace SchemaMarkup

open Text

/-- What is written as an option: its name and, if it has one, its value. -/
structure OptionParts where
  name : Text
  value : Option Text := none

namespace OptionParts

/-- A value behind its sign. -/
def assigned (value : Option Text) : Text :=
  value.elim [] ('=' :: ·)

/-- The text of the option. -/
def text (parts : OptionParts) : Text :=
  parts.name ++ assigned parts.value

/-- The option that is written. -/
def option (parts : OptionParts) : EnumValue where
  name := String.ofList parts.name
  value := parts.value.map String.ofList

/-- The text of several options. -/
def bars (options : List OptionParts) : Text :=
  List.intercalate ['|'] (options.map text)

/-- The options in parentheses behind the word. -/
def grouped (options : List OptionParts) : Text :=
  "enum".toList ++ '(' :: (bars options ++ [')'])

/-- The options behind the word and a blank. -/
def spaced (options : List OptionParts) : Text :=
  "enum".toList ++ ' ' :: bars options

/-- The field with the options. -/
def field (name : Text) (options : List OptionParts) (location : Location) : Field where
  name := String.ofList name
  typeName := "enum"
  options := options.map option
  location := location

/-- An option has an identifier for a name, and its value is made of name characters. -/
structure WellFormed (parts : OptionParts) : Prop where
  name : parts.name.isIdentifier = true
  value : ∀ value, parts.value = some value → IsCallName value

namespace WellFormed

variable {parts : OptionParts} (wellFormed : parts.WellFormed)
include wellFormed

theorem named : IsCallName parts.name :=
  isCallName_of_isIdentifier wellFormed.name

theorem isName_of_mem {character : Char} (listed : character ∈ parts.text) :
    isNameCharacter character = true ∨ character = '=' := by
  rcases List.mem_append.mp listed with inName | inValue
  · exact .inl (wellFormed.named.2 character inName)
  · cases isValue : parts.value with
    | none => simp [assigned, isValue] at inValue
    | some value =>
        rw [assigned, isValue, Option.elim_some, List.mem_cons] at inValue
        exact inValue.symm.imp_left ((wellFormed.value value isValue).2 character)

theorem filled : parts.text ≠ [] := by
  simp [text, wellFormed.named.1]

/-- An option shows no sign but its characters. -/
theorem seals {wanted : Char → Bool} (noEquals : wanted '=' = false)
    (unwanted : ∀ character, isNameCharacter character = true → wanted character = false) :
    Seals wanted parts.text := by
  refine seals_of_plain fun character listed => ?_
  rcases wellFormed.isName_of_mem listed with isName | rfl
  · exact ⟨isPlain_of_isNameCharacter isName, unwanted character isName⟩
  · exact ⟨by decide, noEquals⟩

theorem trimmed : parts.text.trim = parts.text := by
  refine trim_of_filled fun character listed => ?_
  rcases wellFormed.isName_of_mem listed with isName | rfl
  · exact not_isBlank_of_isNameCharacter isName
  · decide

theorem isBare : parts.text.IsBare := by
  refine @isBare_of_forall _ (fun character => isNameCharacter character || character == '=')
    (by decide) fun character listed => ?_
  rcases wellFormed.isName_of_mem listed with isName | rfl
  · simp [isName]
  · decide

/-- An option is read as it is written. -/
theorem read_text : EnumValue.read parts.text = .ok parts.option := by
  have bare := wellFormed.isBare
  have balanced := checkBalance_eq_ok_iff.mpr
    (@seals _ wellFormed (fun _ => false) rfl fun _ _ => rfl).isBalanced
  have named := splitNameLabel?_of_isIdentifier wellFormed.name
  simp only [EnumValue.read, bare.splitDescription, balanced, bare.splitSemantic, asLineFault,
    Except.mapError, bind, Except.bind, takeTrailingQuoted_of_unmarked bare.ends]
  have sealedName : Seals (· == '=') parts.name :=
    wellFormed.named.seals fun _ => beq_of_isNameCharacter (by decide)
  cases isValue : parts.value with
  | none =>
      have whole : parts.text = parts.name := by simp [text, assigned, isValue]
      have noValue : parts.name.cutAt '=' = none := cutAtAny_eq_none sealedName.hides
      simp [whole, noValue, named, option, isValue]
  | some value =>
      have cut : parts.text.cutAt '=' =
          some { before := parts.name, mark := '=', following := value } := by
        rw [text, assigned, isValue]
        exact cutAtAny_append sealedName (by decide) (by decide)
      have isCallName := wellFormed.value value isValue
      simp [cut, named, option, isValue, isCallName.unquoted,
        nonBlank?_of_trimmed isCallName.trimmed isCallName.1]

end WellFormed

/-- A name is a default value as it stands. -/
theorem read_name {value : Text} (isName : IsCallName value) :
    DefaultValue.read value = .ok { value := String.ofList value, isExpression := false } := by
  have noExpression : value.isEnclosedBy '`' = false :=
    isEnclosedBy_of_not_mem (isName.not_mem (by decide))
  have noString : value.isEnclosedBy '"' = false :=
    isEnclosedBy_of_not_mem (isName.not_mem (by decide))
  have noGroup : '(' ∉ value := isName.not_mem (by decide)
  simp [DefaultValue.read, isName.trimmed, isName.1, unquoteExpression?, noExpression, noString,
    noGroup]

theorem isCallName_enum : IsCallName "enum".toList := by
  decide

/-! ## Lists of options -/

section Several

variable {options : List OptionParts} (wellFormed : ∀ parts ∈ options, parts.WellFormed)
include wellFormed

theorem seals_bars {wanted : Char → Bool} (noSign : wanted '=' = false ∧ wanted '|' = false)
    (unwanted : ∀ character, isNameCharacter character = true → wanted character = false) :
    Seals wanted (bars options) := by
  refine .intercalate (.cons (by decide) noSign.2 .nil) fun item listed => ?_
  obtain ⟨parts, isParts, rfl⟩ := List.mem_map.mp listed
  exact (wellFormed parts isParts).seals noSign.1 unwanted

theorem balanced_bars : (bars options).isBalanced = true :=
  (@seals_bars options wellFormed (fun _ => false) ⟨rfl, rfl⟩ fun _ _ => rfl).isBalanced

theorem isBare_bars : (bars options).IsBare := by
  intro sign isSign listed
  rcases mem_intercalate listed with isBar | ⟨item, isItem, inItem⟩
  · rw [List.mem_singleton.mp isBar] at isSign
    exact absurd isSign (by decide)
  · obtain ⟨parts, isParts, rfl⟩ := List.mem_map.mp isItem
    exact (wellFormed parts isParts).isBare sign isSign inItem

theorem trim_bars : (bars options).trim = bars options := by
  refine trim_intercalate ['|'] fun item listed => ?_
  obtain ⟨parts, isParts, rfl⟩ := List.mem_map.mp listed
  exact ⟨(wellFormed parts isParts).trimmed, (wellFormed parts isParts).filled⟩

variable (several : 2 ≤ options.length)
include several

/-- Several options show the first bar between them. -/
theorem isSome_cutAt_bars {front : Text} (sealed : Seals (· == '|') front) :
    (cutAt '|' (front ++ bars options)).isSome = true := by
  match options, several with
  | first :: next :: later, _ =>
      have sealedFirst : Seals (· == '|') first.text :=
        (wellFormed first List.mem_cons_self).seals (by decide) fun _ =>
          beq_of_isNameCharacter (by decide)
      rw [bars, List.map_cons, List.map_cons, List.intercalate_cons_cons, List.append_assoc,
        ← List.append_assoc front, cutAt, List.singleton_append,
        cutAtAny_append (sealed.append sealedFirst) (by decide) (by decide)]
      rfl

/-- Options are read as they are written, in their order. -/
theorem readOptions_bars : EnumValue.readOptions (bars options) = .ok (options.map option) := by
  have divided : (bars options).pieces '|' = options.map text := by
    refine pieces_intercalate (by decide) (by simp) fun item listed => ?_
    obtain ⟨parts, isParts, rfl⟩ := List.mem_map.mp listed
    have isWellFormed := wellFormed parts isParts
    exact ⟨isWellFormed.seals (by decide) fun _ => beq_of_isNameCharacter (by decide),
      isWellFormed.trimmed, isWellFormed.filled⟩
  have shown := isSome_cutAt_bars wellFormed several .nil
  rw [List.nil_append] at shown
  rw [EnumValue.readOptions, shown, if_pos rfl, divided,
    mapM_eq_ok_iff, List.forall₂_map_left_iff, List.forall₂_map_right_iff, List.forall₂_same]
  exact fun parts listed => (wellFormed parts listed).read_text

omit several in
/-- Options in parentheses show no sign but the parenthesis. -/
theorem seals_grouped {sign : Char} (apart : isNameCharacter sign = false)
    (noGroup : ('(' == sign) = false) : Seals (· == sign) (grouped options) := by
  have sealedWord : Seals (· == sign) "enum".toList :=
    isCallName_enum.seals fun _ => beq_of_isNameCharacter apart
  exact sealedWord.append (.group rfl noGroup (balanced_bars wellFormed))

/-- Options in parentheses are set with the type. -/
theorem setType_grouped (field : Field) :
    field.setType (grouped options) =
      .ok { field with typeName := "enum", options := options.map option, length := none } := by
  have trimmed : (grouped options).trim = grouped options :=
    trim_append_inParentheses isCallName_enum (some (bars options))
  have isRead := @TypeExpression.read?_written "enum".toList isCallName_enum (some (bars options))
    (by rintro _ ⟨⟩; exact balanced_bars wellFormed) false
  refine Field.setType_eq_ok_iff.mpr
    ⟨{ name := "enum", nullable := false, inner := some (bars options), rest := [] }, ?_,
      .inl ⟨equalIgnoringCase_self _, _, readOptions_bars wellFormed several, by simp⟩⟩
  rw [trimmed]
  simpa [grouped, inParentheses, nullMark] using isRead

/-- Options behind the word are set with the type. -/
theorem setType_spaced (field : Field) :
    field.setType (spaced options) =
      .ok { field with typeName := "enum", options := options.map option, length := none } := by
  have filled : bars options ≠ [] := by
    intro none
    have shown := isSome_cutAt_bars wellFormed several .nil
    rw [List.nil_append, none] at shown
    contradiction
  have trimmed : (spaced options).trim = spaced options :=
    trim_append_append [' '] isCallName_enum.trimmed isCallName_enum.1 (trim_bars wellFormed) filled
  have rest : trim (' ' :: bars options) = bars options := by
    rw [← List.singleton_append, trim_blank_append _ isBlank_of_mem_space, trim_bars wellFormed]
  refine Field.setType_eq_ok_iff.mpr
    ⟨{ name := "enum", nullable := false, inner := none, rest := bars options }, ?_,
      .inl ⟨equalIgnoringCase_self _, _, readOptions_bars wellFormed several, by simp⟩⟩
  rw [trimmed, spaced, TypeExpression.read?_apart isCallName_enum, rest, String.ofList_toList]

/-! ## Default values -/

omit wellFormed several in
theorem takeWhile_word {rest : Text}
    (ends : ∀ next, rest.head? = some next → isNameCharacter next = false) :
    (trimStart ("enum".toList ++ rest)).takeWhile isNameCharacter = "enum".toList := by
  rw [isCallName_enum.trimStart_append, (isCallName_enum.span ends).1]

theorem splitDefault_spaced : (spaced options).splitDefault = .ok (spaced options, none) := by
  have isWord : (trimStart (spaced options)).takeWhile isNameCharacter = "enum".toList :=
    takeWhile_word (by rintro _ ⟨⟩; decide)
  have shown : ((spaced options).cutAt '|').isSome = true := by
    have sealed : Seals (· == '|') ("enum".toList ++ [' ']) := seals_of_all (by decide)
    simpa [spaced] using isSome_cutAt_bars wellFormed several sealed
  rw [splitDefault]
  cases (spaced options).cutAt '=' with
  | none => rfl
  | some cut =>
      simp only [isWord, shown]
      rfl

omit several in
theorem splitDefault_grouped : (grouped options).splitDefault = .ok (grouped options, none) :=
  splitDefault_of_sealed (seals_grouped wellFormed (by decide) (by decide))

omit several in
/-- A value behind the parentheses is taken for the default value. -/
theorem splitDefault_assigned {value : Text} (isName : IsCallName value) :
    splitDefault (grouped options ++ " = ".toList ++ value) =
      .ok (grouped options ++ [' '],
        some { value := String.ofList value, isExpression := false }) := by
  have sealed : Seals (· == '=') (grouped options ++ [' ']) :=
    (seals_grouped wellFormed (by decide) (by decide)).append (seals_of_all (by decide))
  have hidden : Seals (· == '|') (grouped options ++ (" = ".toList ++ value)) :=
    (seals_grouped wellFormed (by decide) (by decide)).append
      (.append (seals_of_all (by decide))
        (isName.seals fun _ => beq_of_isNameCharacter (by decide)))
  have cut := @cutAtAny_append (· == '=') (grouped options ++ [' ']) '=' (' ' :: value) sealed
    (by decide) (by decide)
  have isValue : DefaultValue.read (' ' :: value) =
      .ok { value := String.ofList value, isExpression := false } := by
    rw [← DefaultValue.read_trim, ← List.singleton_append,
      trim_blank_append value isBlank_of_mem_space, DefaultValue.read_trim, read_name isName]
  have whole : grouped options ++ [' '] ++ '=' :: ' ' :: value =
      grouped options ++ (" = ".toList ++ value) := by
    simp
  rw [whole] at cut
  rw [List.append_assoc, splitDefault, cutAt, cut]
  simp only [cutAt, cutAtAny_eq_none hidden.hides, isValue]
  simp [Except.map]

end Several

/-! ## Field lines -/

/-- Options are set as they are written, in parentheses or behind the word, and a default value is
set only where one is assigned to the parentheses. -/
theorem read_options {name : Text} (identifier : name.isIdentifier = true)
    {options : List OptionParts} (several : 2 ≤ options.length)
    (wellFormed : ∀ parts ∈ options, parts.WellFormed) (location : Location) :
    Field.read location (keyed name (grouped options)) =
        .ok (field name options location, .simple) ∧
      Field.read location (keyed name (spaced options)) =
        .ok (field name options location, .simple) ∧
      ∀ value : Text, IsCallName value →
        Field.read location (keyed name (grouped options ++ " = ".toList ++ value)) =
          .ok ({ field name options location with
            defaultValue := some { value := String.ofList value, isExpression := false } },
            .simple) := by
  have bare := isBare_bars wellFormed
  have bareGroup : (grouped options).IsBare :=
    @IsBare.append "enum(".toList (by decide) _ (bare.append (by decide))
  have sealedGroup : Seals (· == '|') (grouped options) :=
    seals_grouped wellFormed (by decide) (by decide)
  refine ⟨?_, ?_, fun value isName => ?_⟩
  · exact Field.read_keyed_of_parts location identifier bareGroup sealedGroup.isBalanced
      (splitDefault_grouped wellFormed) (setType_grouped wellFormed several _)
  · have bareSpaced : (spaced options).IsBare := @IsBare.append "enum ".toList (by decide) _ bare
    have sealedSpaced : Seals (fun _ => false) (spaced options) :=
      @Seals.append _ "enum ".toList _ (seals_of_all (by decide))
        (seals_bars wellFormed ⟨rfl, rfl⟩ fun _ _ => rfl)
    exact Field.read_keyed_of_parts location identifier bareSpaced sealedSpaced.isBalanced
      (splitDefault_spaced wellFormed several) (setType_spaced wellFormed several _)
  · have bareValue : value.IsBare := isBare_of_forall (by decide) isName.2
    have sealed : Seals (· == '|') (grouped options ++ " = ".toList ++ value) :=
      (sealedGroup.append (seals_of_all (by decide))).append
        (isName.seals fun _ => beq_of_isNameCharacter (by decide))
    have isType := setType_grouped wellFormed several { name := String.ofList name, location }
    rw [← Field.setType_trim, ← trim_append_blank _ isBlank_of_mem_space,
      Field.setType_trim] at isType
    exact Field.read_keyed_of_parts location identifier
      ((bareGroup.append (by decide)).append bareValue) sealed.isBalanced
      (splitDefault_assigned wellFormed isName) isType

/-- Two options, the first one with a value. -/
def levels : List OptionParts :=
  [{ name := "Low".toList, value := some "1".toList }, { name := "High".toList }]

/-- The options of a level are read from both spellings, and a default value from the first. -/
theorem levels_areRead :
    Field.read .unknown "Level: enum(Low=1|High)".toList =
        .ok (field "Level".toList levels .unknown, .simple) ∧
      Field.read .unknown "Level: enum Low=1|High".toList =
        .ok (field "Level".toList levels .unknown, .simple) ∧
      Field.read .unknown "Level: enum(Low=1|High) = High".toList =
        .ok ({ field "Level".toList levels .unknown with
          defaultValue := some { value := "High", isExpression := false } }, .simple) := by
  have wellFormed : ∀ parts ∈ levels, parts.WellFormed := by
    rw [levels, List.forall_mem_cons, List.forall_mem_singleton]
    refine ⟨⟨by decide, ?_⟩, by decide, nofun⟩
    rintro _ ⟨⟩
    decide
  obtain ⟨isGrouped, isSpaced, isAssigned⟩ :=
    @read_options "Level".toList (by decide) levels (by decide) wellFormed .unknown
  exact ⟨isGrouped, isSpaced, isAssigned "High".toList (by decide)⟩

end OptionParts

end SchemaMarkup
