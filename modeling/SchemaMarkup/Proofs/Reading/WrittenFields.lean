import SchemaMarkup.Proofs.Reading.SealedLines

/-!
# Field lines as they are written

The parts of a field make up a line, and the line is read as the field of the parts
(`FieldParts.read_line`). A sign that ends a part for the reader may occur in another part: in a
label, in a string, in the arguments of an attribute and in the description. Each part seals the
signs that are looked for while it is still on the line (`FieldParts.WellFormed.seals_declared` and
the lemmas behind it), so each step of the reader stops at the sign that the line was written with.
-/

namespace SchemaMarkup

/-- The parts of a field line. -/
structure FieldParts where
  name : Text
  label : Option Text := none
  typeName : Text
  length : Option Length := none
  nullable : Bool := false
  /-- The contents of the string that is the default value. -/
  default : Option Text := none
  semantic : List Attribute := []
  framework : List Attribute := []
  description : Option Text := none

namespace FieldParts

open Text

/-! ## Lines -/

/-- `name(label)` -/
def declared (parts : FieldParts) : Text :=
  parts.name ++ inParentheses parts.label

/-- `type(length)?` -/
def type (parts : FieldParts) : Text :=
  parts.typeName ++
    (inParentheses (parts.length.map fun length => length.render.toList) ++ nullMark parts.nullable)

/-- ` = "default"` -/
def assigned (parts : FieldParts) : Text :=
  parts.default.elim [] fun value => ' ' :: '=' :: ' ' :: '"' :: (value ++ ['"'])

/-- ` @first @second` -/
def run (parts : FieldParts) : Text :=
  if parts.semantic = [] then []
  else ' ' :: List.intercalate [' '] ((rawTexts parts.semantic).map ('@' :: ·))

/-- ` [First, Second]` -/
def group (parts : FieldParts) : Text :=
  if parts.framework = [] then []
  else ' ' :: '[' :: (List.intercalate [',', ' '] (rawTexts parts.framework) ++ [']'])

/-- ` #description` -/
def remark (parts : FieldParts) : Text :=
  parts.description.elim [] fun description => ' ' :: '#' :: description

/-- `name(label): type(length)? = "default"` -/
def declaration (parts : FieldParts) : Text :=
  parts.declared ++ ':' :: ' ' :: (parts.type ++ parts.assigned)

/-- The line that the parts make up. Parts that are absent are left out. -/
def line (parts : FieldParts) : Text :=
  parts.declaration ++ (parts.run ++ (parts.group ++ parts.remark))

/-- The field of the parts. -/
def field (parts : FieldParts) (location : Location) : Field where
  name := String.ofList parts.name
  label := parts.label.map String.ofList
  typeName := String.ofList parts.typeName
  length := parts.length
  nullable := parts.nullable
  defaultValue := parts.default.map fun value =>
    { value := String.ofList value, isExpression := false }
  semanticAttributes := parts.semantic
  frameworkAttributes := parts.framework
  description := parts.description.map String.ofList
  location

/-- What the parts of a line may be. -/
structure WellFormed (parts : FieldParts) : Prop where
  name : parts.name.isIdentifier = true
  label : ∀ label, parts.label = some label →
    label ≠ [] ∧ label.trim = label ∧ ∀ character ∈ label, isPlain character = true
  typeName : IsCallName parts.typeName
  noOptions : parts.typeName.spells "enum" = false
  default : ∀ value, parts.default = some value → '"' ∉ value ∧ '\\' ∉ value
  semantic : parts.semantic = [] ∨ ∃ text : Text, text.callList = .ok parts.semantic
  noBackslash : ∀ call ∈ parts.semantic, '\\' ∉ call.raw.toList
  framework : parts.framework = [] ∨ ∃ text : Text, text.callList = .ok parts.framework
  description : ∀ description, parts.description = some description →
    description ≠ [] ∧ description.trim = description ∧ '[' ∉ description ∧
      description.head? ≠ some '#'

/-! ## What the parts seal -/

/-- The sign is no name character and none of the others. -/
def Apart (sign : Char) (others : List Char) : Prop :=
  isNameCharacter sign = false ∧ sign ∉ others

instance (sign : Char) (others : List Char) : Decidable (Apart sign others) :=
  inferInstanceAs (Decidable (_ ∧ _))

theorem Apart.beq {sign other : Char} {others : List Char} (apart : Apart sign others)
    (listed : other ∈ others) : (other == sign) = false := by
  rw [beq_eq_false_iff_ne]
  rintro rfl
  exact apart.2 listed

theorem Apart.mono {sign : Char} {others fewer : List Char} (apart : Apart sign others)
    (within : fewer ⊆ others) : Apart sign fewer :=
  ⟨apart.1, fun listed => apart.2 (within listed)⟩

theorem seals_inParentheses {contents : Option Text} {sign : Char} (apart : ('(' == sign) = false)
    (balanced : ∀ inner, contents = some inner → inner.isBalanced = true) :
    Seals (· == sign) (inParentheses contents) := by
  cases contents with
  | none => exact .nil
  | some inner => exact .group rfl apart (balanced inner rfl)

/-- Attributes that were read from a list, if there are any, are spelled by their raw texts. -/
theorem spelled_of_listed {calls : List Attribute}
    (listed : calls = [] ∨ ∃ text : Text, text.callList = .ok calls) :
    ∀ call ∈ calls, Spells call.raw.toList call := by
  rcases listed with rfl | ⟨text, areRead⟩
  · exact fun call isCall => absurd isCall List.not_mem_nil
  · exact (standIn_of_callList areRead).spelled

namespace WellFormed

variable {parts : FieldParts} (wellFormed : parts.WellFormed) {sign : Char}

include wellFormed

theorem seals_declared (apart : Apart sign ['(']) : Seals (· == sign) parts.declared := by
  have named := isCallName_of_isIdentifier wellFormed.name
  refine (named.seals fun _ => beq_of_isNameCharacter apart.1).append
    (seals_inParentheses (apart.beq (by decide)) fun label isLabel => ?_)
  have plain := (wellFormed.label label isLabel).2.2
  have sealed : Seals (fun _ => false) label :=
    seals_of_plain fun character listed => ⟨plain character listed, rfl⟩
  exact sealed.isBalanced

theorem seals_type (apart : Apart sign ['(', '?']) : Seals (· == sign) parts.type := by
  refine (wellFormed.typeName.seals fun _ => beq_of_isNameCharacter apart.1).append
    (.append ?_ ?_)
  · exact seals_inParentheses (apart.beq (by decide)) fun _ => Length.isBalanced_of_map_render
  · rw [nullMark]
    split
    · exact .cons (by decide) (apart.beq (by decide)) .nil
    · exact .nil

theorem seals_assigned (apart : Apart sign [' ', '=', '"']) : Seals (· == sign) parts.assigned := by
  rw [assigned]
  cases isDefault : parts.default with
  | none => exact .nil
  | some value =>
      obtain ⟨noMark, noBackslash⟩ := wellFormed.default value isDefault
      obtain ⟨stays, leads⟩ := Nesting.staysInside_of_not_mem noMark noBackslash
      have noBlank : (' ' == sign) = false := apart.beq (by decide)
      exact .cons (by decide) noBlank (.cons (by decide) (apart.beq (by decide))
        (.cons (by decide) noBlank (.string rfl (apart.beq (by decide)) stays leads)))

theorem spelled_semantic : ∀ call ∈ parts.semantic, Spells call.raw.toList call :=
  spelled_of_listed wellFormed.semantic

theorem seals_run (apart : Apart sign [' ', '@', '(']) : Seals (· == sign) parts.run := by
  rw [run]
  split
  · exact .nil
  · have noBlank : (' ' == sign) = false := apart.beq (by decide)
    refine .cons (by decide) noBlank (.intercalate (.cons (by decide) noBlank .nil) ?_)
    intro item listed
    obtain ⟨raw, isRaw, rfl⟩ := List.mem_map.mp listed
    refine .cons (by decide) (apart.beq (by decide)) ?_
    exact seals_of_mem_rawTexts wellFormed.spelled_semantic
      (fun _ => beq_of_isNameCharacter apart.1) (apart.beq (by decide)) isRaw

theorem seals_declaration (apart : Apart sign ['(', '?', ' ', '=', '"', ':']) :
    Seals (· == sign) parts.declaration :=
  (wellFormed.seals_declared (apart.mono (by simp))).append
    (.cons (by decide) (apart.beq (by decide)) (.cons (by decide) (apart.beq (by decide))
      ((wellFormed.seals_type (apart.mono (by simp))).append
        (wellFormed.seals_assigned (apart.mono (by simp))))))

/-- What stands in front of the groups and the description shows the signs it is written with. -/
theorem seals_body (apart : Apart sign ['(', '?', ' ', '=', '"', ':', '@'])
    (filled : isBlank sign = false) {blanks : Text}
    (blank : ∀ character ∈ blanks, isBlank character = true) :
    Seals (· == sign) (parts.declaration ++ (parts.run ++ blanks)) :=
  (wellFormed.seals_declaration (apart.mono (by simp))).append
    ((wellFormed.seals_run (apart.mono (by simp))).append (seals_of_blank filled blank))

/-! ### Quotes and backslashes -/

theorem isQuote_of_mem_declared {character : Char} (listed : character ∈ parts.declared) :
    isQuote character = false := by
  have noQuote : ∀ {character}, isPlain character = true → isQuote character = false := by
    intro character plain
    simp only [isPlain, Bool.and_eq_true, Bool.not_eq_true'] at plain
    exact plain.1.1
  have named := isCallName_of_isIdentifier wellFormed.name
  rcases List.mem_append.mp listed with inName | inLabel
  · exact noQuote (isPlain_of_isNameCharacter (named.2 character inName))
  · cases isLabel : parts.label with
    | none => simp [isLabel, inParentheses] at inLabel
    | some label =>
        have plain := (wellFormed.label label isLabel).2.2
        rw [isLabel] at inLabel
        simp only [inParentheses, Option.elim_some, List.mem_cons, List.mem_append,
          List.not_mem_nil, or_false] at inLabel
        rcases inLabel with rfl | inText | rfl
        · decide
        · exact noQuote (plain character inText)
        · decide

theorem not_mem_type (apart : Apart sign ['(', ',', ')', '?']) : sign ∉ parts.type := by
  have other : ∀ {character}, character ∈ ['(', ',', ')', '?'] → sign ≠ character :=
    fun listed same => apart.2 (same ▸ listed)
  have inName : sign ∉ parts.typeName := wellFormed.typeName.not_mem apart.1
  have inLength : ∀ length : Length, sign ∉ length.render.toList := by
    intro length listed
    rcases Length.mem_render listed with isName | isComma
    · exact absurd (isName.symm.trans apart.1) (by decide)
    · exact other (by decide) isComma
  rw [type, nullMark]
  cases parts.length <;> cases parts.nullable <;> simp [inParentheses, inName, inLength, other]

theorem noBackslash_assigned : '\\' ∉ parts.assigned := by
  rw [assigned]
  cases isDefault : parts.default with
  | none => simp
  | some value => simp [(wellFormed.default value isDefault).2]

theorem noBackslash_run : '\\' ∉ parts.run := by
  rw [run]
  split
  · simp
  · intro listed
    rcases List.mem_cons.mp listed with isBlank | inRun
    · contradiction
    · rcases mem_intercalate inRun with isGap | ⟨item, isItem, inItem⟩
      · exact absurd isGap (by decide)
      · obtain ⟨raw, isRaw, rfl⟩ := List.mem_map.mp isItem
        obtain ⟨call, isCall, rfl⟩ := List.mem_map.mp isRaw
        exact wellFormed.noBackslash call isCall (by simpa using inItem)

/-- A backslash in front of the groups can only be in the label, where no quote precedes it. -/
theorem not_escapesMark {blanks : Text} (blank : ∀ character ∈ blanks, isBlank character = true) :
    ¬EscapesMark (parts.declaration ++ (parts.run ++ blanks)) := by
  have inBlanks : '\\' ∉ blanks := fun listed => absurd (blank _ listed) (by decide)
  have inType : '\\' ∉ parts.type := wellFormed.not_mem_type (by decide)
  rw [declaration, List.append_assoc]
  refine not_escapesMark_append (fun _ => wellFormed.isQuote_of_mem_declared) ?_
  simp [inType, wellFormed.noBackslash_assigned, wellFormed.noBackslash_run, inBlanks]

theorem noBracket_remark : '[' ∉ parts.remark := by
  rw [remark]
  cases isDescription : parts.description with
  | none => simp
  | some description => simp [(wellFormed.description description isDescription).2.2.1]

/-! ## Taking lines apart -/

theorem extractFramework_line :
    ∃ blanks : Text, (∀ character ∈ blanks, isBlank character = true) ∧
      parts.line.extractFramework =
        .ok (parts.declaration ++ (parts.run ++ (blanks ++ parts.remark)), parts.framework) := by
  have front : ∀ {blanks : Text}, (∀ character ∈ blanks, isBlank character = true) →
      Seals (· == '[') (parts.declaration ++ (parts.run ++ blanks)) :=
    fun blank => wellFormed.seals_body (by decide) (by decide) blank
  by_cases none : parts.framework = []
  · have blank : ∀ character ∈ ([] : Text), isBlank character = true := by simp
    have extracted := extractFramework_of_sealed (front blank) (wellFormed.not_escapesMark blank)
      wellFormed.noBracket_remark
    refine ⟨[], blank, ?_⟩
    simpa [line, group, none] using extracted
  · have spelled := spelled_of_listed wellFormed.framework
    have areRead := callList_intercalate spelled none isBlank_of_mem_space
    rw [← trim_intercalate _ fun _ => trimmed_of_mem_rawTexts spelled] at areRead
    have extracted := extractFramework_of_group (front isBlank_of_mem_space)
      (wellFormed.not_escapesMark isBlank_of_mem_space) wellFormed.noBracket_remark areRead
    refine ⟨[' ', ' '], List.all_eq_true.mp (by decide), ?_⟩
    simpa [line, group, none] using extracted

theorem splitDescription_remark {blanks : Text}
    (blank : ∀ character ∈ blanks, isBlank character = true) :
    ∃ others : Text, (∀ character ∈ others, isBlank character = true) ∧
      splitDescription (parts.declaration ++ (parts.run ++ (blanks ++ parts.remark))) =
        (parts.declaration ++ (parts.run ++ others), parts.description.map String.ofList) := by
  have sealed : Seals (· == '#') (parts.declaration ++ (parts.run ++ blanks)) :=
    wellFormed.seals_body (by decide) (by decide) blank
  cases isDescription : parts.description with
  | none =>
      refine ⟨blanks, blank, ?_⟩
      simpa [remark, isDescription] using splitDescription_of_sealed sealed
  | some description =>
      obtain ⟨filled, trimmed, _, noRun⟩ := wellFormed.description description isDescription
      have described := splitDescription_append sealed filled trimmed noRun
      refine ⟨blanks ++ [' '], ?_, ?_⟩
      · simpa [or_imp, forall_and] using ⟨blank, by decide⟩
      · simpa [remark, isDescription] using described

theorem splitSemantic_run {blanks : Text}
    (blank : ∀ character ∈ blanks, isBlank character = true) :
    ∃ others : Text, (∀ character ∈ others, isBlank character = true) ∧
      splitSemantic (parts.declaration ++ (parts.run ++ blanks)) =
        .ok { before := parts.declaration ++ others, attributes := parts.semantic,
              quoted := none } := by
  have front : ∀ {blanks : Text}, (∀ character ∈ blanks, isBlank character = true) →
      Seals (· == '@') (parts.declaration ++ blanks) := fun blank =>
    (wellFormed.seals_declaration (by decide)).append (seals_of_blank (by decide) blank)
  by_cases none : parts.semantic = []
  · refine ⟨blanks, blank, ?_⟩
    simpa [run, none] using splitSemantic_of_hidden (front blank).hides
  · have found :=
      splitSemantic_append (front isBlank_of_mem_space) none wellFormed.spelled_semantic blank
    refine ⟨[' '], isBlank_of_mem_space, ?_⟩
    simpa [run, none] using found

/-! ### The type and its default value -/

theorem trim_type {blanks : Text} (blank : ∀ character ∈ blanks, isBlank character = true) :
    trim (' ' :: (parts.type ++ blanks)) = parts.type := by
  have trimmed : parts.type.trim = parts.type := by
    rw [type, nullMark]
    split
    · exact trim_append_append _ wellFormed.typeName.trimmed wellFormed.typeName.1 rfl (by simp)
    · rw [List.append_nil, trim_append_inParentheses wellFormed.typeName]
  rw [← List.singleton_append, trim_blank_append _ isBlank_of_mem_space,
    trim_append_blank _ blank, trimmed]

theorem type_ends {blanks : Text} (blank : ∀ character ∈ blanks, isBlank character = true) :
    (trimEnd (' ' :: (parts.type ++ blanks))).getLast? ≠ some '"' := by
  have inBlanks : '"' ∉ blanks := fun isBlankHere => absurd (blank _ isBlankHere) (by decide)
  have inType : '"' ∉ parts.type := wellFormed.not_mem_type (by decide)
  exact getLast?_trimEnd_ne (by simp [inBlanks, inType])

theorem takeWhile_type (rest : Text) :
    (trimStart (' ' :: (parts.type ++ ' ' :: rest))).takeWhile isNameCharacter =
      parts.typeName := by
  have ends : ∀ next, (inParentheses (parts.length.map fun length => length.render.toList) ++
      (nullMark parts.nullable ++ ' ' :: rest)).head? = some next →
      isNameCharacter next = false := by
    cases parts.length <;> cases parts.nullable <;> rintro _ ⟨⟩ <;> decide
  rw [← List.singleton_append, trimStart_of_blank _ isBlank_of_mem_space, type,
    List.append_assoc, List.append_assoc, wellFormed.typeName.trimStart_append,
    (wellFormed.typeName.span ends).1]

theorem splitTrailingDescription_assigned {blanks : Text}
    (blank : ∀ character ∈ blanks, isBlank character = true) :
    splitTrailingDescription (' ' :: (parts.type ++ (parts.assigned ++ blanks))) =
      (' ' :: (parts.type ++ (parts.assigned ++ blanks)), none) := by
  cases isDefault : parts.default with
  | none =>
      have unmarked := splitTrailingDescription_of_unmarked (wellFormed.type_ends blank)
      simpa [assigned, isDefault] using unmarked
  | some value =>
      obtain ⟨noMark, noBackslash⟩ := wellFormed.default value isDefault
      have sealed : Seals (· == '#') (' ' :: (parts.type ++ [' '])) :=
        .cons (by decide) (by decide)
          ((wellFormed.seals_type (by decide)).append (.cons (by decide) (by decide) .nil))
      have kept := splitTrailingDescription_of_assigned sealed.reads.2 noMark noBackslash blank
      simpa [assigned, isDefault] using kept

theorem splitDefault_assigned {blanks : Text}
    (blank : ∀ character ∈ blanks, isBlank character = true) :
    ∃ others : Text, (∀ character ∈ others, isBlank character = true) ∧
      splitDefault (' ' :: (parts.type ++ (parts.assigned ++ blanks))) =
        .ok (' ' :: (parts.type ++ others), parts.default.map fun value =>
          { value := String.ofList value, isExpression := false }) := by
  have front : ∀ {blanks : Text}, (∀ character ∈ blanks, isBlank character = true) →
      Seals (· == '=') (' ' :: (parts.type ++ blanks)) :=
    fun blank => .cons (by decide) (by decide)
      ((wellFormed.seals_type (by decide)).append (seals_of_blank (by decide) blank))
  cases isDefault : parts.default with
  | none =>
      refine ⟨blanks, blank, ?_⟩
      simpa [assigned, isDefault] using splitDefault_of_sealed (front blank)
  | some value =>
      obtain ⟨_, noBackslash⟩ := wellFormed.default value isDefault
      have split := splitDefault_of_assigned (front isBlank_of_mem_space) noBackslash blank
        (by simpa using wellFormed.takeWhile_type _) wellFormed.noOptions
      refine ⟨[' '], isBlank_of_mem_space, ?_⟩
      simpa [assigned, isDefault] using split

theorem setTypeAndDefault_assigned (field : Field) {blanks : Text}
    (blank : ∀ character ∈ blanks, isBlank character = true) :
    field.setTypeAndDefault (' ' :: (parts.type ++ (parts.assigned ++ blanks))) = .ok { field with
      typeName := String.ofList parts.typeName
      nullable := field.nullable || parts.nullable
      length := parts.length
      defaultValue := (parts.default.map fun value =>
        { value := String.ofList value, isExpression := false }).or field.defaultValue } := by
  obtain ⟨others, blankOthers, split⟩ := wellFormed.splitDefault_assigned blank
  have typed := field.setType_written wellFormed.typeName wellFormed.noOptions
    (wellFormed.trim_type blankOthers)
  rw [Field.setTypeAndDefault, split]
  simp only [bind, Except.bind, typed, pure, Except.pure]

end WellFormed

/-- A line is read as the field of the parts that it was written from. -/
theorem read_line {parts : FieldParts} (wellFormed : parts.WellFormed) (location : Location) :
    Field.read location parts.line = .ok (parts.field location, .simple) := by
  -- Each step takes its part off the end of the line and leaves blanks where the part stood, which
  -- the next step has to pass over.
  obtain ⟨blanks, blank, extracted⟩ := wellFormed.extractFramework_line
  obtain ⟨behind, blankBehind, described⟩ := wellFormed.splitDescription_remark blank
  obtain ⟨others, blankOthers, annotated⟩ := wellFormed.splitSemantic_run blankBehind
  have sealed : Seals (· == '#') (parts.declaration ++ (parts.run ++ behind)) :=
    wellFormed.seals_body (by decide) (by decide) blankBehind
  have balanced := checkBalance_eq_ok_iff.mpr sealed.isBalanced
  have cut : (parts.declaration ++ others).cutAt ':' = some {
      before := parts.declared
      mark := ':'
      following := ' ' :: (parts.type ++ (parts.assigned ++ others)) } := by
    have found := @cutAtAny_append (· == ':') parts.declared ':'
      (' ' :: (parts.type ++ (parts.assigned ++ others))) (wellFormed.seals_declared (by decide))
      (by decide) (by decide)
    simpa [declaration, cutAt] using found
  have named : splitNameLabel? parts.declared =
      some (String.ofList parts.name, parts.label.map String.ofList) :=
    splitNameLabel?_written wellFormed.name wellFormed.label
  simp only [Field.read, extracted, described, balanced, annotated, asLineFault, Except.mapError,
    bind, Except.bind, cut, named, wellFormed.splitTrailingDescription_assigned blankOthers,
    wellFormed.setTypeAndDefault_assigned _ blankOthers]
  simp [pure, Except.pure, FieldParts.field]

/-- A line in which each sign occurs in parts that it does not end. -/
def crowded : FieldParts where
  name := "Email".toList
  label := some "E-mail = #1: @home".toList
  typeName := "string".toList
  length := some (.fixed 200)
  nullable := true
  default := some "a: [b] = @c #d (".toList
  semantic := [{
    name := "max", arguments := ["10", "\"#[,\""], raw := "max(10, \"#[,\")" },
    { name := "unique", arguments := [], raw := "unique" }]
  framework := [{
    name := "Column", arguments := ["\"\\\"]#\"", "[@x: 1]"]
    raw := "Column(\"\\\"]#\", [@x: 1])" }]
  description := some "Login: \"address = @home".toList

theorem crowded_isRead :
    crowded.WellFormed ∧
      Field.read .unknown (String.toList ("Email(E-mail = #1: @home): string(200)? = " ++
        "\"a: [b] = @c #d (\" @max(10, \"#[,\") @unique [Column(\"\\\"]#\", [@x: 1])] " ++
        "#Login: \"address = @home")) = .ok (crowded.field .unknown, .simple) := by
  have semantic : callList "max(10, \"#[,\"), unique".toList = .ok crowded.semantic :=
    callList_eq_ok_iff.mpr ⟨by decide, by decide +kernel⟩
  have framework : callList "Column(\"\\\"]#\", [@x: 1])".toList = .ok crowded.framework :=
    callList_eq_ok_iff.mpr ⟨by decide, by decide +kernel⟩
  have wellFormed : crowded.WellFormed := {
    name := by decide
    label := by
      rintro _ ⟨⟩
      exact ⟨by decide, by decide, List.all_eq_true.mp (by decide)⟩
    typeName := by decide
    noOptions := by decide
    default := by rintro _ ⟨⟩; decide
    semantic := .inr ⟨_, semantic⟩
    noBackslash := by decide
    framework := .inr ⟨_, framework⟩
    description := by rintro _ ⟨⟩; decide }
  refine ⟨wellFormed, ?_⟩
  have isRead := read_line wellFormed .unknown
  have isLine : crowded.line = String.toList ("Email(E-mail = #1: @home): string(200)? = " ++
      "\"a: [b] = @c #d (\" @max(10, \"#[,\") @unique [Column(\"\\\"]#\", [@x: 1])] " ++
      "#Login: \"address = @home") := by
    decide +kernel
  rwa [isLine] at isRead

end FieldParts

end SchemaMarkup
