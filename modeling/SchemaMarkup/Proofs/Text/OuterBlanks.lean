import SchemaMarkup.Proofs.Text.TrailingStrings

/-!
# Blanks around texts

Readers of pieces are handed texts with blanks at their ends. Whether a text is balanced, what its
first fault is, and which string it ends with do not depend on the blanks behind it
(`Text.checkBalance_append_blank`, `Text.takeTrailingQuoted_append_blank`), and taking blanks or
quotes off the ends of a text takes no other character (`Text.filter_unquote`).
-/

namespace SchemaMarkup

namespace Nesting

variable {nesting : Nesting}

/-- The string that the reader is in was opened by a quote. -/
def InQuotes (nesting : Nesting) : Prop :=
  ∀ mark, nesting.quoting.mark? = some mark → isQuote mark = true

theorem inQuotes_start : ({} : Nesting).InQuotes :=
  fun _ isMark => by contradiction

theorem InQuotes.after (quoted : nesting.InQuotes) (character : Char) :
    (nesting.after character).InQuotes := by
  intro mark isMark
  cases inside : nesting.quoting.mark? with
  | none =>
      have outside : nesting.quoting = .outside := by
        cases isQuoting : nesting.quoting <;> simp_all [Quoting.mark?]
      exact (after_of_enters outside isMark).1
  | some other =>
      rcases (after_of_inside inside character).2 with leaves | stays
      · rw [leaves] at isMark
        contradiction
      · rw [stays] at isMark
        exact quoted mark (inside.trans isMark)

/-- A blank closes nothing and leaves the reader in the string and the brackets where it is. -/
theorem after_of_isBlank (quoted : nesting.InQuotes) {character : Char}
    (blank : isBlank character = true) :
    nesting.rejects character = false ∧
      (nesting.after character).quoting.mark? = nesting.quoting.mark? ∧
      (nesting.after character).brackets = nesting.brackets := by
  have plain := Text.isPlain_of_isBlank blank
  obtain ⟨quoting, brackets⟩ := nesting
  cases quoting with
  | outside =>
      obtain ⟨fits, stays⟩ := @Text.after_of_isPlain { quoting := .outside, brackets } _ rfl plain
      exact ⟨fits, by rw [stays], by rw [stays]⟩
  | escaping mark => exact ⟨rfl, rfl, rfl⟩
  | inside mark =>
      have noMark : (character == mark) = false := by
        rw [beq_eq_false_iff_ne]
        rintro rfl
        simp [isPlain, quoted character rfl] at plain
      refine ⟨rfl, ?_⟩
      simp only [Nesting.after, noMark, Bool.false_eq_true, if_false]
      split
      · exact ⟨rfl, rfl⟩
      · exact ⟨rfl, rfl⟩

end Nesting

namespace Text

/-! ## Balance -/

theorem openings_after_of_isPlain {nesting : Nesting} (openings : Openings) (offset : Nat)
    {character : Char} (plain : isPlain character = true) :
    openings.after nesting offset character = openings := by
  simp only [isPlain, Bool.and_eq_true, Bool.not_eq_true'] at plain
  obtain ⟨⟨noQuote, noOpener⟩, noCloser⟩ := plain
  rw [Openings.after]
  split
  · simp [noQuote, noOpener, noCloser]
  · rfl

theorem checkBalance.go_blank {nesting : Nesting} (quoted : nesting.InQuotes)
    (openings : Openings) (offset : Nat) {blanks : Text}
    (blank : ∀ character ∈ blanks, isBlank character = true) :
    go nesting openings offset blanks = go nesting openings offset [] := by
  induction blanks generalizing nesting offset with
  | nil => rfl
  | cons character rest inductionHypothesis =>
      obtain ⟨here, later⟩ := List.forall_mem_cons.mp blank
      obtain ⟨fits, sameString, sameBrackets⟩ := Nesting.after_of_isBlank quoted here
      conv_lhs => rw [go, if_neg (by simp [fits]), openings_after_of_isPlain openings offset
        (isPlain_of_isBlank here)]
      rw [inductionHypothesis (quoted.after character) _ later, go, go, sameString, sameBrackets]

/-- Blanks behind a text have no part in its balance. -/
theorem checkBalance.go_append_blank {nesting : Nesting} (quoted : nesting.InQuotes)
    (openings : Openings) (offset : Nat) (text : Text) {blanks : Text}
    (blank : ∀ character ∈ blanks, isBlank character = true) :
    go nesting openings offset (text ++ blanks) = go nesting openings offset text := by
  induction text generalizing nesting openings offset with
  | nil => exact go_blank quoted openings offset blank
  | cons character rest inductionHypothesis =>
      rw [List.cons_append, go, go, inductionHypothesis (quoted.after character)]

theorem checkBalance_append_blank (text : Text) {blanks : Text}
    (blank : ∀ character ∈ blanks, isBlank character = true) :
    checkBalance (text ++ blanks) = text.checkBalance :=
  checkBalance.go_append_blank Nesting.inQuotes_start {} 0 text blank

/-! ## Cuts -/

/-- Blanks around a text stay on their sides of a cut. -/
theorem cutAt_around {sign : Char} (filled : isBlank sign = false) (text : Text)
    {front back : Text} (blankFront : ∀ character ∈ front, isBlank character = true)
    (blankBack : ∀ character ∈ back, isBlank character = true) :
    cutAt sign (front ++ (text ++ back)) = (text.cutAt sign).map fun cut =>
      { cut with before := front ++ cut.before, following := cut.following ++ back } := by
  have only : ∀ (_ : Option Char) (character : Char) (_ : Text),
      (character == sign) = true → (character == sign) = true := fun _ _ _ same => same
  have sealed := seals_of_blank filled blankFront
  have hiddenBack : ∀ nesting : Nesting, nesting.shows (· == sign) back = false := fun nesting =>
    Nesting.shows_of_unwanted fun character listed => by
      rw [beq_eq_false_iff_ne]
      rintro rfl
      exact absurd ((blankBack character listed).symm.trans filled) (by decide)
  rw [cutAt, cutAtAny, cutWhere, cutWhere.go_append_of_hidden only sealed.hides, sealed.reads.2,
    cutWhere.go_append_eq_or (fun _ _ _ => rfl),
    cutWhere.go_eq_none_of_hidden only _ (hiddenBack _), Option.map_none, Option.or_none,
    cutWhere.go_unseen (fun _ _ _ _ => rfl) {} _ none, Option.map_map]
  rfl

/-! ## Strings at the end -/

/-- A string that ends a text is taken off with the blanks behind it, and without one the text and
the blanks stay. -/
theorem takeTrailingQuoted_append_blank (text : Text) {blanks : Text}
    (blank : ∀ character ∈ blanks, isBlank character = true) :
    takeTrailingQuoted (text ++ blanks) = text.takeTrailingQuoted ∨
      text.takeTrailingQuoted = (text, none) ∧
        takeTrailingQuoted (text ++ blanks) = (text ++ blanks, none) := by
  simp only [takeTrailingQuoted, trimEnd_append_blank text blank]
  split
  · split
    · exact .inl rfl
    · exact .inr ⟨rfl, rfl⟩
  · exact .inr ⟨rfl, rfl⟩

/-! ## Trimmed texts -/

/-- A text is its trimmed text and the blanks around it. -/
theorem exists_trim_around (text : Text) :
    ∃ front back : Text, text = front ++ (text.trim ++ back) ∧
      (∀ character ∈ front, isBlank character = true) ∧
      ∀ character ∈ back, isBlank character = true := by
  obtain ⟨front, whole, blankFront⟩ := exists_trimStart_append text
  obtain ⟨back, wholeBack, blankBack⟩ := exists_trimEnd_append text.trimStart
  refine ⟨front, back, ?_, blankFront, blankBack⟩
  rw [trim, ← wholeBack, ← whole]

/-- A balanced text is balanced without the blanks at its ends. -/
theorem isBalanced_trim {text : Text} (balanced : text.isBalanced = true) :
    text.trim.isBalanced = true := by
  obtain ⟨front, back, whole, blankFront, blankBack⟩ := exists_trim_around text
  have reads := isBalanced_iff.mp balanced
  rw [whole, Nesting.readsToEnd_append, (readsToEnd_of_blank blankFront).2] at reads
  have trimmed := isBalanced_iff.mpr reads.2
  rwa [isBalanced, checkBalance_append_blank _ blankBack] at trimmed

theorem trim_around (text : Text) {front back : Text}
    (blankFront : ∀ character ∈ front, isBlank character = true)
    (blankBack : ∀ character ∈ back, isBlank character = true) :
    trim (front ++ (text ++ back)) = text.trim := by
  rw [trim_blank_append _ blankFront, trim_append_blank _ blankBack]

@[simp] theorem trim_trimEnd (text : Text) : trim text.trimEnd = text.trim := by
  obtain ⟨blanks, whole, blank⟩ := exists_trimEnd_append text
  conv_rhs => rw [whole]
  exact (trim_append_blank _ blank).symm

/-- Behind trimmed text only the blanks at the end are trimmed. -/
theorem trim_append_of_trimmed {front : Text} (trimmed : front.trim = front) (filled : front ≠ [])
    (rest : Text) : trim (front ++ rest) = front ++ rest.trimEnd := by
  obtain ⟨blanks, whole, blank⟩ := exists_trimEnd_append rest
  have kept : trim (front ++ rest.trimEnd) = front ++ rest.trimEnd := by
    apply trim_eq_self
    · intro first starts
      rw [List.head?_append_of_ne_nil _ filled, ← trimmed] at starts
      exact isBlank_head_trim starts
    · intro last ends
      rw [List.getLast?_append] at ends
      rcases Option.or_eq_some_iff.mp ends with inRest | ⟨_, inFront⟩
      · exact isBlank_last_trimEnd inRest
      · rw [← trimmed] at inFront
        exact isBlank_last_trim inFront
  rw [← kept]
  conv_lhs => rw [whole, ← List.append_assoc]
  exact trim_append_blank _ blank

/-- Only blanks are trimmed. -/
theorem filter_trim {keeps : Char → Bool}
    (dropsBlanks : ∀ character, isBlank character = true → keeps character = false)
    (text : Text) : text.trim.filter keeps = text.filter keeps := by
  have noneKept : ∀ {blanks : Text}, (∀ character ∈ blanks, isBlank character = true) →
      blanks.filter keeps = [] := fun blank =>
    List.filter_eq_nil_iff.mpr fun character listed => by
      simp [dropsBlanks character (blank character listed)]
  obtain ⟨front, back, whole, blankFront, blankBack⟩ := exists_trim_around text
  conv_rhs => rw [whole]
  rw [List.filter_append, List.filter_append, noneKept blankFront, noneKept blankBack,
    List.nil_append, List.append_nil]

theorem mem_trim {text : Text} {character : Char} (listed : character ∈ text)
    (filled : isBlank character = false) : character ∈ text.trim := by
  have kept : character ∈ text.filter (· == character) := by simp [listed]
  rw [← filter_trim (fun other blank => ?_) text] at kept
  · exact (List.mem_filter.mp kept).1
  · rw [beq_eq_false_iff_ne]
    rintro rfl
    exact absurd (blank.symm.trans filled) (by decide)

/-! ## Unquoted texts -/

/-- What is enclosed by a mark stands between two of them. -/
theorem exists_of_isEnclosedBy {mark : Char} {text : Text}
    (enclosed : text.isEnclosedBy mark = true) :
    ∃ inner : Text, text = mark :: (inner ++ [mark]) := by
  simp only [isEnclosedBy, Bool.and_eq_true, beq_iff_eq, decide_eq_true_eq] at enclosed
  obtain ⟨⟨long, starts⟩, ends⟩ := enclosed
  obtain ⟨rest, rfl⟩ := List.head?_eq_some_iff.mp starts
  cases rest with
  | nil => simp at long
  | cons next later =>
      rw [List.getLast?_cons_cons] at ends
      obtain ⟨inner, whole⟩ := List.getLast?_eq_some_iff.mp ends
      exact ⟨inner, by rw [whole]⟩

/-- Only blanks and quotes are taken off by unquoting. -/
theorem filter_unquote {keeps : Char → Bool}
    (dropsBlanks : ∀ character, isBlank character = true → keeps character = false)
    (dropsMark : keeps '"' = false) (text : Text) :
    text.unquote.filter keeps = text.filter keeps := by
  rw [← filter_trim dropsBlanks text]
  simp only [unquote]
  split
  · next enclosed =>
      obtain ⟨inner, whole⟩ := exists_of_isEnclosedBy enclosed
      simp [whole, dropsMark]
  · rfl

theorem mem_unquote {text : Text} {character : Char} (listed : character ∈ text)
    (filled : isBlank character = false) (noMark : character ≠ '"') :
    character ∈ text.unquote := by
  have kept : character ∈ text.filter (· == character) := by simp [listed]
  rw [← filter_unquote (fun other blank => ?_) (by simp [noMark.symm]) text] at kept
  · exact (List.mem_filter.mp kept).1
  · rw [beq_eq_false_iff_ne]
    rintro rfl
    exact absurd (blank.symm.trans filled) (by decide)

end Text

end SchemaMarkup
