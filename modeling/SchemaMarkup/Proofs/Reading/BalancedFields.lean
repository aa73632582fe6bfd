import SchemaMarkup.Proofs.Reading.BracketGroups
import SchemaMarkup.Proofs.Text.Fronts
import SchemaMarkup.Reading.Model

/-!
# Balance of field lines

A field line is checked for balance once its framework attributes have given way to blanks. So it
is balanced if each group reads as a blank where it stands. Outside of strings that takes a
closing bracket of the right kind, which the search for the end of a group does not ask for.
Inside of a string the contents of a group may end the string, and then it depends on the rest of
the line. A group can be found there because the search for its start knows no escapes.
-/

namespace SchemaMarkup

namespace FrameworkToken

/-- The group reads as a blank: no closing bracket stops the reader, and it is led to where a
blank leads. -/
def ReadsAsBlank (token : FrameworkToken) (place : Nesting) : Prop :=
  place.accepts token.body = true ∧ place.afterText token.body = place.after ' '

instance (token : FrameworkToken) (place : Nesting) : Decidable (token.ReadsAsBlank place) :=
  inferInstanceAs (Decidable (_ ∧ _))

/-- The place of the first group that does not read as a blank, and what stands from there on. -/
def firstMisread? (place : Nesting) : List FrameworkToken → Text → Option (Nesting × Text)
  | [], _ => none
  | token :: later, rest =>
      let here := place.afterText token.before
      if token.ReadsAsBlank here then firstMisread? (here.after ' ') later rest
      else some (here, token.body ++ written later rest)

/-- Outside of strings a group with balanced contents reads as a blank if it is closed by a bracket
of its kind, and else it is refused. -/
theorem readsAsBlank_iff_of_outside {token : FrameworkToken} {place : Nesting}
    (outside : place.quoting = .outside) (balanced : token.inner.isBalanced = true)
    (closes : isCloser token.closer = true) :
    (token.ReadsAsBlank place ↔ token.closer = ']') ∧
      (place.accepts token.body = true ↔ token.closer = ']') := by
  obtain ⟨quoting, outer⟩ := place
  obtain rfl : quoting = .outside := outside
  obtain ⟨accepted_iff, staysInside⟩ := @body_of_outside token outer balanced closes
  refine ⟨?_, accepted_iff⟩
  rw [ReadsAsBlank, accepted_iff, staysInside]
  exact and_iff_left rfl

/-- Every group of a line opens outside of strings. -/
def OpenOutside (place : Nesting) (tokens : List FrameworkToken) : Prop :=
  ∀ earlier token later, tokens = earlier ++ token :: later →
    (place.afterText (written earlier token.before)).quoting = .outside

end FrameworkToken

open FrameworkToken

/-- A line that is balanced with blanks for its groups is balanced if the first group that does not
read as a blank is inside of a string, and the line goes on from there to top level. -/
theorem readsToEnd_written_iff {place : Nesting} {tokens : List FrameworkToken} {rest : Text}
    (blank : place.ReadsToEnd (blanked tokens rest))
    (balanced : ∀ token ∈ tokens, token.inner.isBalanced = true)
    (closes : ∀ token ∈ tokens, isCloser token.closer = true) :
    place.ReadsToEnd (written tokens rest) ↔
      ∀ here behind, firstMisread? place tokens rest = some (here, behind) →
        here.quoting ≠ .outside ∧ here.ReadsToEnd behind := by
  induction tokens generalizing place with
  | nil => simpa [firstMisread?] using blank
  | cons token later inductionHypothesis =>
      obtain ⟨balancedHere, balancedLater⟩ := List.forall_mem_cons.mp balanced
      obtain ⟨closesHere, closesLater⟩ := List.forall_mem_cons.mp closes
      rw [blanked_cons, Nesting.readsToEnd_append, Nesting.readsToEnd_cons] at blank
      obtain ⟨accepted, _, blankLater⟩ := blank
      rw [written_cons, Nesting.readsToEnd_append, and_iff_right accepted, firstMisread?]
      generalize place.afterText token.before = here at blankLater ⊢
      by_cases asBlank : token.ReadsAsBlank here
      · rw [if_pos asBlank, ← inductionHypothesis blankLater balancedLater closesLater,
          Nesting.readsToEnd_append, asBlank.2, and_iff_right asBlank.1]
      · simp only [if_neg asBlank, Option.some.injEq, Prod.mk.injEq]
        constructor
        · rintro reads _ _ ⟨rfl, rfl⟩
          refine ⟨fun outside => asBlank ?_, reads⟩
          obtain ⟨asBlank_iff, accepted_iff⟩ :=
            readsAsBlank_iff_of_outside outside balancedHere closesHere
          exact asBlank_iff.mpr (accepted_iff.mp (Nesting.readsToEnd_append.mp reads).1)
        · intro goesOn
          exact (goesOn here _ ⟨rfl, rfl⟩).2

/-- A line whose groups all open outside of strings is balanced if each of them is closed by a
bracket of its kind. -/
theorem readsToEnd_written_iff_of_outside {place : Nesting} {tokens : List FrameworkToken}
    {rest : Text} (blank : place.ReadsToEnd (blanked tokens rest))
    (balanced : ∀ token ∈ tokens, token.inner.isBalanced = true)
    (closes : ∀ token ∈ tokens, isCloser token.closer = true)
    (outside : OpenOutside place tokens) :
    place.ReadsToEnd (written tokens rest) ↔ ∀ token ∈ tokens, token.closer = ']' := by
  induction tokens generalizing place with
  | nil => simpa using blank
  | cons token later inductionHypothesis =>
      obtain ⟨balancedHere, balancedLater⟩ := List.forall_mem_cons.mp balanced
      obtain ⟨closesHere, closesLater⟩ := List.forall_mem_cons.mp closes
      rw [blanked_cons, Nesting.readsToEnd_append, Nesting.readsToEnd_cons] at blank
      obtain ⟨accepted, _, blankLater⟩ := blank
      obtain ⟨asBlank_iff, accepted_iff⟩ := readsAsBlank_iff_of_outside
        (outside [] token later rfl) balancedHere closesHere
      rw [written_nil] at asBlank_iff accepted_iff
      rw [written_cons, Nesting.readsToEnd_append, and_iff_right accepted,
        Nesting.readsToEnd_append, accepted_iff, List.forall_mem_cons]
      refine and_congr_right fun fitting => ?_
      have leads := (asBlank_iff.mpr fitting).2
      rw [leads]
      refine inductionHypothesis blankLater balancedLater closesLater ?_
      intro earlier other last split
      have outsideLater := outside (token :: earlier) other last (by rw [split, List.cons_append])
      rwa [written_cons, Nesting.afterText_append, Nesting.afterText_append, leads] at outsideLater

/-! ## Lines without backslashes -/

/-- Without a backslash both readers enter and leave the same strings. -/
theorem Nesting.quoting_after {nesting : Nesting} {reading : PlainReading} {character : Char}
    (noBackslash : character ≠ '\\')
    (same : nesting.quoting = reading.string.elim .outside .inside) :
    (nesting.after character).quoting = (reading.after character).string.elim .outside .inside := by
  obtain ⟨string, depth⟩ := reading
  obtain ⟨quoting, brackets⟩ := nesting
  obtain rfl : quoting = string.elim .outside .inside := same
  cases string with
  | none =>
      by_cases quotes : isQuote character = true
      · rw [PlainReading.after_quote quotes]
        simp [Nesting.after, quotes]
      · have staysOutside : (PlainReading.after { depth } character).string = none := by
          simp [PlainReading.after, Text.plainStringAfter, quotes]
        rw [staysOutside]
        simp only [Nesting.after, Option.elim, quotes, Bool.false_eq_true, if_false]
        repeat' split
        all_goals rfl
  | some mark =>
      rw [PlainReading.after_inside]
      by_cases isMark : character = mark
      · subst isMark
        simp [Nesting.after, noBackslash]
      · simp [Nesting.after, noBackslash, isMark]

theorem Nesting.quoting_afterText {nesting : Nesting} {reading : PlainReading} {text : Text}
    (noBackslash : '\\' ∉ text)
    (same : nesting.quoting = reading.string.elim .outside .inside) :
    (nesting.afterText text).quoting = (reading.afterText text).string.elim .outside .inside := by
  induction text generalizing nesting reading with
  | nil => exact same
  | cons character rest inductionHypothesis =>
      obtain ⟨notHere, notLater⟩ := not_or.mp (mt List.mem_cons.mpr noBackslash)
      exact inductionHypothesis notLater (quoting_after (Ne.symm notHere) same)

/-- In a line without backslashes the groups that are found open outside of strings. -/
theorem Text.openOutside_of_taken {text rest : Text} {tokens : List FrameworkToken}
    (taken : text.Taken tokens rest) (noBackslash : '\\' ∉ text)
    (balanced : ∀ token ∈ tokens, token.inner.isBalanced = true)
    (closes : ∀ token ∈ tokens, isCloser token.closer = true) {place : Nesting}
    (outside : place.quoting = .outside) : OpenOutside place tokens := by
  induction taken generalizing place with
  | rest => exact fun earlier token later split => by simp at split
  | @token text following behind rest token tokens opens closing goesOn inductionHypothesis =>
      obtain ⟨balancedHere, balancedLater⟩ := List.forall_mem_cons.mp balanced
      obtain ⟨closesHere, closesLater⟩ := List.forall_mem_cons.mp closes
      obtain ⟨rfl, atTop, _⟩ := splitAtBracket_eq_some_iff.mp opens
      obtain ⟨inner, closer, later, _, isBehind, _, rfl⟩ := splitAtClose_cons closing
      obtain ⟨_, rfl⟩ := List.cons.inj isBehind
      simp only [List.mem_append, List.mem_cons, not_or] at noBackslash
      have here : (place.afterText token.before).quoting = .outside := by
        rw [@Nesting.quoting_afterText place {} token.before noBackslash.1 outside, atTop]
        rfl
      have leads : (place.afterText token.before).afterText token.body =
          place.afterText token.before := by
        generalize place.afterText token.before = there at here ⊢
        obtain ⟨quoting, outer⟩ := there
        obtain rfl : quoting = .outside := here
        exact (@body_of_outside token outer balancedHere closesHere).2
      intro earlier other last split
      cases earlier with
      | nil =>
          obtain ⟨rfl, _⟩ := List.cons.inj split
          exact here
      | cons first earlier =>
          obtain ⟨rfl, splitLater⟩ := List.cons.inj split
          rw [written_cons, Nesting.afterText_append, Nesting.afterText_append, leads]
          exact inductionHypothesis noBackslash.2.2.2.2 balancedLater closesLater here earlier other
            last splitLater

/-! ## Field lines -/

/-- A blank is the only sign that is new to a line with blanks for its groups. -/
theorem mem_written_of_mem_blanked {tokens : List FrameworkToken} {rest : Text} {character : Char}
    (listed : character ∈ blanked tokens rest) :
    character = ' ' ∨ character ∈ written tokens rest := by
  induction tokens with
  | nil => exact .inr listed
  | cons token later inductionHypothesis =>
      simp only [blanked_cons, List.mem_append, List.mem_cons] at listed
      rcases listed with isBefore | isBlank | isLater
      · exact .inr (by simp [isBefore])
      · exact .inl isBlank
      · exact (inductionHypothesis isLater).imp_right fun behind => by simp [behind]

/-- A line without `#` that is a field line is balanced with blanks for its groups, and so are the
contents of these. -/
theorem Field.taken_of_read {location : Location} {text : Text} {field : Field}
    {form : FieldForm} (noHash : '#' ∉ text)
    (isRead : Field.read location text = .ok (field, form)) :
    ∃ tokens rest, text.Taken tokens rest ∧ (blanked tokens rest).isBalanced = true ∧
      ∀ token ∈ tokens, token.inner.isBalanced = true := by
  simp only [Field.read, bind_eq_ok_iff, asLineFault, mapError_eq_ok_iff] at isRead
  obtain ⟨⟨body, attributes⟩, extracted, _, checked, _⟩ := isRead
  obtain ⟨tokens, rest, calls, taken, areRead, rfl, _⟩ :=
    Text.extractFramework_eq_ok_iff.mp extracted
  have noHashLeft : '#' ∉ blanked tokens rest := by
    intro listed
    rcases mem_written_of_mem_blanked listed with isBlank | isWritten
    · exact absurd isBlank (by decide)
    · exact noHash (taken.whole.1 ▸ isWritten)
  simp only [Text.splitDescription_of_not_mem noHashLeft] at checked
  exact ⟨tokens, rest, taken, by rw [Text.isBalanced, checked]; rfl,
    Text.isBalanced_of_mapM_calls areRead⟩

namespace Field

/-- A line without `#` that is a field line is balanced unless one of its groups does not read as a
blank: then the first one that does not has to open inside of a string, and the line has to go
on from there to top level. Where all groups open outside of strings, as they do in a line without
backslashes, the line is balanced if each of them is closed by a bracket of its kind. -/
theorem isBalanced_iff_of_read {location : Location} {text : Text} {field : Field}
    {form : FieldForm} (noHash : '#' ∉ text)
    (isRead : Field.read location text = .ok (field, form)) :
    ∃ tokens rest, text.Taken tokens rest ∧
      (text.isBalanced = true ↔ ∀ place behind,
        firstMisread? {} tokens rest = some (place, behind) →
          place.quoting ≠ .outside ∧ place.ReadsToEnd behind) ∧
      (OpenOutside {} tokens → (text.isBalanced = true ↔ ∀ token ∈ tokens, token.closer = ']')) ∧
      ('\\' ∉ text → OpenOutside {} tokens) := by
  obtain ⟨tokens, rest, taken, blank, balanced⟩ := taken_of_read noHash isRead
  obtain ⟨rfl, closes⟩ := taken.whole
  rw [Text.isBalanced_iff] at blank ⊢
  exact ⟨tokens, rest, taken, readsToEnd_written_iff blank balanced closes,
    readsToEnd_written_iff_of_outside blank balanced closes, fun noBackslash =>
      Text.openOutside_of_taken taken noBackslash balanced closes rfl⟩

/-- A field line whose group holds a bracket in a string. -/
def indexedLine : Text :=
  "Id: guid [Key, Index(\"a)\")] @pk".toList

/-- The line is balanced, as its group reads as a blank. -/
theorem indexedLine_balanced :
    ∃ field form, Field.read .unknown indexedLine = .ok (field, form) ∧
      indexedLine.isBalanced = true ∧
      ∃ tokens rest, indexedLine.Taken tokens rest ∧
        (indexedLine.isBalanced = true ↔ ∀ place behind,
          firstMisread? {} tokens rest = some (place, behind) →
            place.quoting ≠ .outside ∧ place.ReadsToEnd behind) := by
  have succeeds : (Field.read .unknown indexedLine).map
      (fun outcome => outcome.1.frameworkAttributes.map Attribute.raw) =
        .ok ["Key", "Index(\"a)\")"] := by
    decide +kernel
  obtain ⟨⟨field, form⟩, isRead, _⟩ := map_eq_ok_iff.mp succeeds
  obtain ⟨tokens, rest, taken, balanced_iff, _⟩ :=
    isBalanced_iff_of_read (by decide) isRead
  exact ⟨field, form, isRead, by decide +kernel, tokens, rest, taken, balanced_iff⟩

/-- A group that is closed by a parenthesis. -/
def misclosedLine : Text :=
  "Id: guid [Key)".toList

/-- The line is a field line, and it is not balanced. -/
theorem misclosedLine_accepted :
    '#' ∉ misclosedLine ∧ (Field.read .unknown misclosedLine).isOk = true ∧
      misclosedLine.checkBalance = .error (.unexpected ')' 13) := by
  refine ⟨?_, ?_, ?_⟩ <;> decide +kernel

/-- The contents of a group that is found inside of a string end the string. -/
example :
    let line : Text := "n: text = \"\\\" [a(\"b)\")] \"".toList
    (Field.read .unknown line).isOk = true ∧
      line.checkBalance = .error (.unexpected ')' 19) := by
  decide +kernel

end Field

end SchemaMarkup
