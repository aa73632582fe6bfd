import SchemaMarkup.Grammar.Field
import SchemaMarkup.Proofs.Reading.BracketGroups
import SchemaMarkup.Proofs.Reading.CallLists
import SchemaMarkup.Proofs.Reading.WrittenTypes
import SchemaMarkup.Proofs.Text.TrailingStrings

/-!
# Lines with sealed fronts

A field line is taken apart in steps, each of which looks for a sign of its own: square brackets,
`#`, `@`, `=`, a string at the end. Behind a text that seals the sign, each step finds what is
written there and leaves the text as it is.
-/

namespace SchemaMarkup

namespace Text

/-! ## Square brackets -/

theorem opensNone_of_hidden {text : Text} (hidden : ({} : Nesting).shows (· == '[') text = false) :
    OpensNone AtTop text := by
  rintro front back rfl atTop
  rw [Nesting.shows_append, show ({} : Nesting).afterText front = {} from atTop,
    Nesting.shows_cons] at hidden
  simp [Nesting.isTop] at hidden

/-- A mark is escaped behind a backslash that follows a quote. -/
theorem exists_quote_of_escapesMark {text : Text} (escapes : EscapesMark text) :
    ∃ before mark inner behind, text = before ++ mark :: (inner ++ '\\' :: behind) ∧
      isQuote mark = true := by
  obtain ⟨front, mark, back, rfl, escaping⟩ := escapes
  rcases List.eq_nil_or_concat' front with rfl | ⟨front, last, rfl⟩
  · contradiction
  · rw [Nesting.afterText_append] at escaping
    obtain ⟨rfl, inside⟩ := Nesting.inside_of_after_escaping escaping
    obtain ⟨before, inner, rfl, isMark, _⟩ :=
      @Nesting.exists_opening {} front mark rfl (by rw [inside]; rfl)
    exact ⟨before, mark, inner, mark :: back, by simp, isMark⟩

/-- No mark is escaped if no backslash follows a quote. -/
theorem not_escapesMark_append {left right : Text}
    (noQuote : ∀ character ∈ left, isQuote character = false) (noBackslash : '\\' ∉ right) :
    ¬EscapesMark (left ++ right) := by
  intro escapes
  obtain ⟨before, mark, inner, behind, whole, isMark⟩ := exists_quote_of_escapesMark escapes
  rcases List.append_eq_append_iff.mp whole with ⟨gap, rfl, rfl⟩ | ⟨gap, rfl, isRight⟩
  · exact noBackslash (by simp)
  · cases gap with
    | nil =>
        rw [List.nil_append] at isRight
        exact noBackslash (isRight ▸ by simp)
    | cons first gap =>
        obtain ⟨rfl, _⟩ := List.cons.inj isRight
        exact absurd (isMark.symm.trans (noQuote mark (by simp))) (by decide)

/-- The search for an opening bracket goes past a text that seals brackets and escapes no mark. -/
theorem search_of_sealed {text : Text} (sealed : Seals (· == '[') text)
    (unescaped : ¬EscapesMark text) :
    ({} : PlainReading).afterText text = {} ∧
      OpensNone (fun front => ({} : PlainReading).afterText front = {}) text := by
  have none := opensNone_of_hidden sealed.hides
  obtain ⟨sees, atTop_iff⟩ := seesBrackets_of_unescaped sealed.reads.1 none unescaped
  exact ⟨atTop_iff.mpr sealed.reads.2, (seesBrackets_iff_of_none none).mp sees⟩

/-- Nothing is taken out of a line that shows no bracket. -/
theorem extractFramework_of_sealed {front rest : Text} (sealed : Seals (· == '[') front)
    (unescaped : ¬EscapesMark front) (noBracket : '[' ∉ rest) :
    (front ++ rest).extractFramework = .ok (front ++ rest, []) := by
  have none : (front ++ rest).splitAtBracket = none := by
    rw [splitAtBracket_eq_none_iff]
    intro before back split
    obtain ⟨gap, rfl⟩ := exists_of_not_mem_right noBracket split
    exact (search_of_sealed sealed unescaped).2 before gap rfl
  exact extractFramework_eq_ok_iff.mpr ⟨[], _, [], .rest none, rfl, rfl, rfl⟩

/-- The calls of the only group of a line are taken out of it. -/
theorem extractFramework_of_group {front inner rest : Text} {calls : List Attribute}
    (sealed : Seals (· == '[') front) (unescaped : ¬EscapesMark front) (noBracket : '[' ∉ rest)
    (areRead : inner.trim.callList = .ok calls) :
    extractFramework (front ++ '[' :: (inner ++ ']' :: rest)) =
      .ok (front ++ ' ' :: rest, calls) := by
  have balanced : inner.isBalanced = true :=
    isBalanced_of_trim (isBalanced_of_callList areRead)
  obtain ⟨atTop, none⟩ := search_of_sealed sealed unescaped
  have opens : splitAtBracket (front ++ '[' :: (inner ++ ']' :: rest)) =
      some (front, inner ++ ']' :: rest) :=
    splitAtBracket_eq_some_iff.mpr ⟨rfl, atTop, none⟩
  have noneBehind : rest.splitAtBracket = Option.none := by
    rw [splitAtBracket_eq_none_iff]
    rintro before back rfl
    exact absurd (List.mem_append_right before List.mem_cons_self) noBracket
  let token : FrameworkToken := { before := front, inner, closer := ']' }
  have taken : Taken (front ++ '[' :: (inner ++ ']' :: rest)) [token] rest :=
    .token opens (splitAtClose_of_balanced balanced) (.rest noneBehind)
  refine extractFramework_eq_ok_iff.mpr ⟨[token], rest, [calls], taken, ?_, ?_, ?_⟩
  · exact mapM_eq_ok_iff.mpr (.cons areRead .nil)
  · simp [token]
  · simp

/-! ## Descriptions -/

/-- A line that shows no `#` has no description. -/
theorem splitDescription_of_sealed {text : Text} (sealed : Seals (· == '#') text) :
    text.splitDescription = (text, none) := by
  have none : text.cutAtHash = none := by
    refine cutWhere_of_hidden (fun _ character _ stops => ?_) sealed.hides
    exact (Bool.and_eq_true_iff.mp (Bool.and_eq_true_iff.mp stops).1).1
  rw [splitDescription, none]

/-- A description is found behind a line that shows no `#`. -/
theorem splitDescription_append_hash {front description : Text} (sealed : Seals (· == '#') front)
    (noRun : description.head? ≠ some '#') :
    (front ++ ' ' :: '#' :: description).splitDescription =
      (front ++ [' '], description.nonBlank?) := by
  have sealedBlank : Seals (· == '#') (front ++ [' ']) :=
    sealed.append (.cons (by decide) (by decide) .nil)
  have found : cutAtHash (front ++ [' '] ++ '#' :: description) =
      some { before := front ++ [' '], mark := '#', following := description } := by
    refine cutWhere_append_of_sealed (fun _ character _ stops => ?_) sealedBlank (by decide) ?_
    · exact (Bool.and_eq_true_iff.mp (Bool.and_eq_true_iff.mp stops).1).1
    · simp [noRun]
  rw [List.append_assoc] at found
  rw [splitDescription, show front ++ ' ' :: '#' :: description =
    front ++ ([' '] ++ '#' :: description) from rfl, found]

/-- A trimmed description is found as it stands. -/
theorem splitDescription_append {front description : Text} (sealed : Seals (· == '#') front)
    (filled : description ≠ []) (trimmed : description.trim = description)
    (noRun : description.head? ≠ some '#') :
    (front ++ ' ' :: '#' :: description).splitDescription =
      (front ++ [' '], some (String.ofList description)) := by
  rw [splitDescription_append_hash sealed noRun, nonBlank?_of_trimmed trimmed filled]

/-! ## Semantic attributes -/

/-- A line that shows no `@` has no semantic attributes. -/
theorem splitSemantic_of_hidden {text : Text}
    (hidden : ({} : Nesting).shows (· == '@') text = false) :
    text.splitSemantic = .ok { before := text, attributes := [], quoted := none } := by
  rw [splitSemantic, cutAt, cutAtAny_eq_none hidden]

/-- A run of calls starts with its sign and ends with a name or a parenthesis. -/
theorem run_bounds {calls : List Attribute} (filled : calls ≠ [])
    (spelled : ∀ call ∈ calls, Spells call.raw.toList call) :
    (∃ behind, List.intercalate [' '] ((rawTexts calls).map ('@' :: ·)) = '@' :: behind) ∧
      ∃ front last, List.intercalate [' '] ((rawTexts calls).map ('@' :: ·)) = front ++ [last] ∧
        (isNameCharacter last = true ∨ last = ')') := by
  constructor
  · obtain ⟨call, others, rfl⟩ := List.exists_cons_of_ne_nil filled
    cases others with
    | nil => exact ⟨call.raw.toList, by simp [rawTexts]⟩
    | cons next later => exact ⟨_, by rw [rawTexts, List.map_cons, List.map_cons, List.map_cons,
        List.map_cons, List.intercalate_cons_cons]; rfl⟩
  · obtain ⟨front, item, listed, whole⟩ := @exists_last_of_intercalate [' ']
      ((rawTexts calls).map ('@' :: ·)) (by simpa [rawTexts] using filled)
    obtain ⟨raw, isRaw, rfl⟩ := List.mem_map.mp listed
    obtain ⟨call, isCall, rfl⟩ := List.mem_map.mp isRaw
    have spells := spelled call isCall
    obtain ⟨first, rest, shape, _⟩ := spells.exists_first
    rcases List.eq_nil_or_concat' call.raw.toList with empty | ⟨before, last, ending⟩
    · simp [empty] at shape
    · refine ⟨front ++ '@' :: before, last, by rw [whole, ending]; simp, spells.ends ?_⟩
      rw [ending, List.getLast?_concat]

/-- Calls are found behind a line that shows no `@`. -/
theorem splitSemantic_append {front blanks : Text} {calls : List Attribute}
    (sealed : Seals (· == '@') front) (filled : calls ≠ [])
    (spelled : ∀ call ∈ calls, Spells call.raw.toList call)
    (blank : ∀ character ∈ blanks, isBlank character = true) :
    splitSemantic (front ++
        (List.intercalate [' '] ((rawTexts calls).map ('@' :: ·)) ++ blanks)) =
      .ok { before := front, attributes := calls, quoted := none } := by
  obtain ⟨⟨behind, starts⟩, before, last, ends, isEnd⟩ := run_bounds filled spelled
  have areRead := @callRun_intercalate calls spelled blanks blank
  have filledEnd : isBlank last = false := by
    rcases isEnd with isName | rfl
    · exact not_isBlank_of_isNameCharacter isName
    · decide
  have noString : takeTrailingQuoted ('@' :: (behind ++ blanks)) =
      ('@' :: (behind ++ blanks), none) := by
    refine takeTrailingQuoted_of_unmarked ?_
    rw [← List.cons_append, ← starts, trimEnd_append_blank _ blank, ends,
      trimEnd_concat before filledEnd, List.getLast?_concat]
    rintro ⟨⟩
    exact absurd isEnd (by decide)
  rw [starts, List.cons_append] at areRead ⊢
  rw [splitSemantic, cutAt, cutAtAny_append sealed (by decide) (by decide)]
  simp only [noString, areRead]
  rfl

/-! ## Names and labels -/

/-- What stands between trimmed names and parentheses has no blank at its ends. -/
theorem trim_append_inParentheses {name : Text} (named : IsCallName name)
    (contents : Option Text) :
    trim (name ++ inParentheses contents) = name ++ inParentheses contents := by
  cases contents with
  | none => simpa [inParentheses] using named.trimmed
  | some inner => exact trim_append_append ('(' :: inner) named.trimmed named.1 rfl (by simp)

/-- A name and its label are read as they are written. -/
theorem splitNameLabel?_written {name : Text} {label : Option Text}
    (identifier : name.isIdentifier = true)
    (labelled : ∀ text, label = some text →
      text ≠ [] ∧ text.trim = text ∧ ∀ character ∈ text, isPlain character = true) :
    splitNameLabel? (name ++ inParentheses label) =
      some (String.ofList name, label.map String.ofList) := by
  have named := isCallName_of_isIdentifier identifier
  have noGroup : ∀ character ∈ name, (character != '(') = true := by
    intro character listed
    rw [bne_iff_ne]
    rintro rfl
    exact named.not_mem (by decide) listed
  simp only [splitNameLabel?, trim_append_inParentheses named,
    List.takeWhile_append_of_pos noGroup, List.dropWhile_append_of_pos noGroup]
  cases label with
  | none => simp [inParentheses, identifier]
  | some text =>
      obtain ⟨filled, labelTrimmed, plain⟩ := labelled text rfl
      have noMark : '"' ∉ text := fun listed => absurd (plain _ listed) (by decide)
      simp [inParentheses, named.trimmed, identifier, unquote_of_not_mem labelTrimmed noMark,
        nonBlank?_of_trimmed labelTrimmed filled]

/-! ## Strings -/

/-- A string without escapes. -/
def quoted (contents : Text) : Text :=
  '"' :: (contents ++ ['"'])

theorem trim_quoted (contents : Text) : trim contents.quoted = contents.quoted :=
  @trim_append_append ['"'] ['"'] contents rfl (by simp) rfl (by simp)

theorem isEnclosedBy_quoted (contents : Text) : contents.quoted.isEnclosedBy '"' = true := by
  rw [isEnclosedBy, quoted, ← List.cons_append, List.getLast?_concat]
  simp

/-- A string without escapes is the text in it. -/
theorem unquote_quoted (contents : Text) : contents.quoted.unquote = contents := by
  rw [unquote, trim_quoted, isEnclosedBy_quoted]
  simp [quoted]

/-- A text without backslashes escapes no quotes. -/
theorem unescapeQuotes_of_not_mem {text : Text} (noBackslash : '\\' ∉ text) :
    text.unescapeQuotes = text := by
  induction text with
  | nil => rfl
  | cons character rest inductionHypothesis =>
      obtain ⟨other, later⟩ := not_or.mp (mt List.mem_cons.mpr noBackslash)
      rw [unescapeQuotes, inductionHypothesis later]
      rintro _ rfl
      exact absurd rfl other

/-! ## Default values -/

/-- A text that ends with no quote has no string at its end. -/
theorem splitTrailingDescription_of_unmarked {text : Text}
    (ends : text.trimEnd.getLast? ≠ some '"') : text.splitTrailingDescription = (text, none) := by
  rw [splitTrailingDescription, takeTrailingQuoted_of_unmarked ends]
  rfl

/-- A string behind `=` is no description. -/
theorem splitTrailingDescription_of_assigned {front value blanks : Text}
    (atTop : ({} : Nesting).afterText front = {}) (noMark : '"' ∉ value)
    (noBackslash : '\\' ∉ value) (blank : ∀ character ∈ blanks, isBlank character = true) :
    splitTrailingDescription (front ++ '=' :: ' ' :: '"' :: (value ++ '"' :: blanks)) =
      (front ++ '=' :: ' ' :: '"' :: (value ++ '"' :: blanks), none) := by
  obtain ⟨stays, leads⟩ := Nesting.staysInside_of_not_mem noMark noBackslash
  have atTopBehind : ({} : Nesting).afterText (front ++ ['=', ' ']) = {} := by
    rw [Nesting.afterText_append, atTop]
    decide
  have taken := takeTrailingQuoted_of_string atTopBehind stays leads blank
  rw [List.append_assoc] at taken
  have assigned : (trimEnd (front ++ ['=', ' '])).getLast? = some '=' := by
    rw [show front ++ ['=', ' '] = front ++ ['='] ++ [' '] by simp,
      trimEnd_append_blank _ isBlank_of_mem_space, trimEnd_concat front (by decide),
      List.getLast?_concat]
  rw [splitTrailingDescription,
    show front ++ '=' :: ' ' :: '"' :: (value ++ '"' :: blanks) =
      front ++ (['=', ' '] ++ '"' :: (value ++ '"' :: blanks)) from rfl, taken]
  simp [assigned]

/-- A text that shows no `=` assigns no default value. -/
theorem splitDefault_of_sealed {text : Text} (sealed : Seals (· == '=') text) :
    text.splitDefault = .ok (text, none) := by
  rw [splitDefault, cutAt, cutAtAny_eq_none sealed.hides]

end Text

/-- A string is read as the default value that it holds. -/
theorem DefaultValue.read_string {value blanks : Text} (noBackslash : '\\' ∉ value)
    (blank : ∀ character ∈ blanks, isBlank character = true) :
    DefaultValue.read (' ' :: '"' :: (value ++ '"' :: blanks)) =
      .ok { value := String.ofList value, isExpression := false } := by
  have trimmed : Text.trim (' ' :: '"' :: (value ++ '"' :: blanks)) = value.quoted := by
    have whole : ' ' :: '"' :: (value ++ '"' :: blanks) = [' '] ++ (value.quoted ++ blanks) := by
      simp [Text.quoted]
    rw [whole, Text.trim_blank_append _ Text.isBlank_of_mem_space,
      Text.trim_append_blank _ blank, Text.trim_quoted]
  have filled : value.quoted ≠ [] := List.cons_ne_nil _ _
  have noExpression : value.quoted.isEnclosedBy '`' = false := by
    simp [Text.isEnclosedBy, Text.quoted]
  simp [DefaultValue.read, trimmed, filled, Text.unquoteExpression?, Text.trim_quoted, noExpression,
    Text.isEnclosedBy_quoted, Text.unquote_quoted, Text.unescapeQuotes_of_not_mem noBackslash]

/-- A string behind `=` is taken off a type as its default value. -/
theorem Text.splitDefault_of_assigned {front value blanks : Text}
    (sealed : Seals (· == '=') front) (noBackslash : '\\' ∉ value)
    (blank : ∀ character ∈ blanks, isBlank character = true) {name : Text}
    (starts : (trimStart (front ++ '=' :: ' ' :: '"' :: (value ++ '"' :: blanks))).takeWhile
      isNameCharacter = name) (noOptions : name.spells "enum" = false) :
    splitDefault (front ++ '=' :: ' ' :: '"' :: (value ++ '"' :: blanks)) =
      .ok (front, some { value := String.ofList value, isExpression := false }) := by
  rw [splitDefault, cutAt, cutAtAny_append sealed (by decide) (by decide)]
  simp only [starts, noOptions, Bool.false_and, Bool.false_eq_true, if_false,
    DefaultValue.read_string noBackslash blank]
  rfl

/-- A type is set as it is written. -/
theorem Field.setType_written (field : Field) {name text : Text} {length : Option Length}
    {nullable : Bool} (named : Text.IsCallName name) (noOptions : name.spells "enum" = false)
    (trimmed : text.trim = name ++ (Text.inParentheses
      (length.map fun length => length.render.toList) ++ Text.nullMark nullable)) :
    field.setType text = .ok { field with
      typeName := String.ofList name, nullable := field.nullable || nullable, length } := by
  have isRead := TypeExpression.read?_written named
    (fun inner => @Length.isBalanced_of_map_render length inner) nullable
  obtain ⟨first, rest, rfl, _⟩ := named.exists_first
  have noEnum : equalIgnoringCase (String.ofList (first :: rest)) "enum" = false := noOptions
  have isLength : (length.map fun length => length.render.toList).mapM Text.readLength =
      .ok length := by
    cases length with
    | none => rfl
    | some length => rw [Option.map_some, Option.mapM_some, Text.readLength_render]; rfl
  simp only [setType, trimmed, isRead, noEnum, List.isEmpty_nil, isLength]
  rfl

end SchemaMarkup
