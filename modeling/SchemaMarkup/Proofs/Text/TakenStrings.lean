import SchemaMarkup.Proofs.Text.BalanceGrammar
import SchemaMarkup.Proofs.Text.OuterBlanks

/-!
# The strings that balanced texts end with

A balanced text that ends with a double quote ends with a string at top level: the mark would
otherwise leave a string open, or stand in a bracket that is open. So the last mark that opens a
string at top level is the partner of the last mark of the text, whatever strings, escapes and
groups are in front of it, and taking the string off leaves a balanced text
(`Text.takeTrailingQuoted_of_isBalanced`).
-/

namespace SchemaMarkup

namespace Text

variable {text : Text}

/-! ## Escaped marks -/

/-- The second text is the first with every `\"` replaced by `"`. -/
def ReplacesEscapedMarks (text replaced : Text) : Prop :=
  ∃ parts : List Text, text = List.intercalate ['\\', '"'] parts ∧
    replaced = List.intercalate ['"'] parts ∧ ∀ part ∈ parts, ¬['\\', '"'] <:+: part

theorem intercalate_cons_front (gap : Text) (character : Char) (first : Text)
    (others : List Text) :
    List.intercalate gap ((character :: first) :: others) =
      character :: List.intercalate gap (first :: others) := by
  cases others with
  | nil => rw [List.intercalate_singleton, List.intercalate_singleton]
  | cons next later => rw [List.intercalate_cons_cons, List.intercalate_cons_cons]; rfl

/-- A text is its first part, and what follows it. -/
theorem isPrefix_intercalate (gap first : Text) (others : List Text) :
    first <+: List.intercalate gap (first :: others) := by
  cases others with
  | nil => exact ⟨[], by rw [List.append_nil, List.intercalate_singleton]⟩
  | cons next later =>
      rw [List.intercalate_cons_cons, List.append_assoc]
      exact List.prefix_append _ _

/-- A text without escaped marks is kept, if what follows does not make one with it. -/
theorem unescapeQuotes_append {part rest : Text} (apart : ¬['\\', '"'] <:+: part)
    (noMark : rest.head? ≠ some '"') :
    unescapeQuotes (part ++ rest) = part ++ rest.unescapeQuotes := by
  induction part with
  | nil => rfl
  | cons character later inductionHypothesis =>
      have apartLater : ¬['\\', '"'] <:+: later :=
        fun within => apart (List.infix_cons within)
      rw [List.cons_append, unescapeQuotes, inductionHypothesis apartLater, List.cons_append]
      rintro behind rfl startsWithMark
      cases later with
      | nil => exact noMark (congrArg List.head? startsWithMark)
      | cons next others =>
          obtain rfl : next = '"' := (List.cons.inj startsWithMark).1
          exact apart ⟨[], others, rfl⟩

theorem unescapeQuotes_intercalate {parts : List Text}
    (apart : ∀ part ∈ parts, ¬['\\', '"'] <:+: part) :
    unescapeQuotes (List.intercalate ['\\', '"'] parts) = List.intercalate ['"'] parts := by
  induction parts with
  | nil => rfl
  | cons part others inductionHypothesis =>
      obtain ⟨apartHere, apartLater⟩ := List.forall_mem_cons.mp apart
      cases others with
      | nil =>
          have kept := @unescapeQuotes_append part [] apartHere (by simp)
          rw [List.append_nil, unescapeQuotes, List.append_nil] at kept
          rw [List.intercalate_singleton, List.intercalate_singleton, kept]
      | cons next later =>
          rw [List.intercalate_cons_cons, List.intercalate_cons_cons, List.append_assoc,
            List.append_assoc, unescapeQuotes_append apartHere (by simp),
            ← inductionHypothesis apartLater]
          rfl

/-- A text is divided by its escaped marks. -/
theorem exists_parts_between_escapedMarks (text : Text) :
    ∃ first others, text = List.intercalate ['\\', '"'] (first :: others) ∧
      ∀ part ∈ first :: others, ¬['\\', '"'] <:+: part := by
  induction text using unescapeQuotes.induct with
  | case1 rest inductionHypothesis =>
      obtain ⟨first, others, whole, apart⟩ := inductionHypothesis
      refine ⟨[], first :: others, ?_, List.forall_mem_cons.mpr ⟨by simp, apart⟩⟩
      rw [List.intercalate_cons_cons, ← whole]
      rfl
  | case2 character rest notEscaped inductionHypothesis =>
      obtain ⟨first, others, whole, apart⟩ := inductionHypothesis
      obtain ⟨apartFirst, apartLater⟩ := List.forall_mem_cons.mp apart
      refine ⟨character :: first, others, by rw [intercalate_cons_front, ← whole], ?_⟩
      refine List.forall_mem_cons.mpr ⟨fun within => ?_, apartLater⟩
      rcases List.infix_cons_iff.mp within with starts | later
      · obtain ⟨isBackslash, startsWithMark⟩ := List.cons_prefix_cons.mp starts
        obtain ⟨behind, startsRest⟩ :=
          startsWithMark.trans (isPrefix_intercalate ['\\', '"'] first others)
        exact notEscaped behind isBackslash.symm (whole.trans startsRest.symm)
      · exact apartFirst later
  | case3 => exact ⟨[], [], rfl, by simp⟩

/-- Taking the escapes out of a text gives the one text in which its escaped marks are replaced. -/
theorem replacesEscapedMarks_iff {replaced : Text} :
    ReplacesEscapedMarks text replaced ↔ replaced = text.unescapeQuotes := by
  constructor
  · rintro ⟨parts, rfl, rfl, apart⟩
    exact (unescapeQuotes_intercalate apart).symm
  · rintro rfl
    obtain ⟨first, others, whole, apart⟩ := exists_parts_between_escapedMarks text
    refine ⟨first :: others, whole, ?_, apart⟩
    rw [← unescapeQuotes_intercalate apart, ← whole]

/-! ## Strings taken off -/

/-- A balanced text that ends with a mark ends with a string behind balanced text, and the string
is taken off. -/
theorem exists_taken_of_ends (balanced : text.isBalanced = true)
    (ends : text.trimEnd.getLast? = some '"') :
    ∃ front inner : Text, text.trimEnd = front ++ '"' :: (inner ++ ['"']) ∧
      front.isBalanced = true ∧ StringBody '"' inner ∧
      text.takeTrailingQuoted = (front, some (String.ofList (unescapeQuotes inner))) := by
  obtain ⟨blanks, whole, blank⟩ := exists_trimEnd_append text
  have balancedTrimmed : text.trimEnd.isBalanced = true := by
    rw [whole, isBalanced, checkBalance_append_blank _ blank] at balanced
    exact balanced
  have reads := isBalanced_iff.mp balancedTrimmed
  obtain ⟨front, inner, isString, opened, stays, leads⟩ :=
    Nesting.exists_string_of_ends rfl ends (by rw [reads.2])
  rw [reads.2] at opened stays leads
  refine ⟨front, inner, isString, ?_, (stringBody_of_stays inner).1 stays leads, ?_⟩
  · rw [isString] at reads
    exact isBalanced_iff.mpr ⟨(Nesting.readsToEnd_append.mp reads).1, opened⟩
  · have regrouped : text = front ++ '"' :: (inner ++ '"' :: blanks) := by
      rw [whole, isString]
      simp
    rw [regrouped]
    exact takeTrailingQuoted_of_string opened stays leads blank

/-- A string is taken off a balanced text exactly if the text ends with a double quote in front of
blanks. The text is then what is left, and the string behind it, in which every mark is escaped; the
escapes are taken out of the contents. Otherwise the text is left as it is. -/
theorem takeTrailingQuoted_of_isBalanced (balanced : text.isBalanced = true) :
    (text.takeTrailingQuoted.2.isSome = true ↔ text.trimEnd.getLast? = some '"') ∧
      (∀ contents, text.takeTrailingQuoted.2 = some contents → ∃ inner : Text,
        text.trimEnd = text.takeTrailingQuoted.1 ++ '"' :: (inner ++ ['"']) ∧
          text.takeTrailingQuoted.1.isBalanced = true ∧ StringBody '"' inner ∧
          ReplacesEscapedMarks inner contents.toList) ∧
      (text.takeTrailingQuoted.2 = none → text.takeTrailingQuoted.1 = text) := by
  refine ⟨?_, ?_, takeTrailingQuoted_of_none⟩
  · by_cases ends : text.trimEnd.getLast? = some '"'
    · obtain ⟨front, inner, _, _, _, taken⟩ := exists_taken_of_ends balanced ends
      simp [taken, ends]
    · simp [takeTrailingQuoted_of_unmarked ends, ends]
  · intro contents isTaken
    by_cases ends : text.trimEnd.getLast? = some '"'
    · obtain ⟨front, inner, isString, balancedFront, body, taken⟩ :=
        exists_taken_of_ends balanced ends
      rw [taken] at isTaken
      obtain rfl : String.ofList (unescapeQuotes inner) = contents := Option.some.inj isTaken
      rw [taken, String.toList_ofList]
      exact ⟨inner, isString, balancedFront, body, replacesEscapedMarks_iff.mpr rfl⟩
    · rw [takeTrailingQuoted_of_unmarked ends] at isTaken
      contradiction

/-- A relation with a description, behind a group and a string of the other kind that hold marks. -/
def describedRelation : Text :=
  ">Customer @label(\"a\") `\"` \"the \\\"owning\\\" customer\" ".toList

/-- The description is taken off and its marks are no longer escaped. -/
theorem describedRelation_isTaken :
    describedRelation.isBalanced = true ∧
      describedRelation.takeTrailingQuoted =
        (">Customer @label(\"a\") `\"` ".toList, some "the \"owning\" customer") ∧
      ∃ inner : Text,
        describedRelation.trimEnd =
          describedRelation.takeTrailingQuoted.1 ++ '"' :: (inner ++ ['"']) ∧
        describedRelation.takeTrailingQuoted.1.isBalanced = true ∧ StringBody '"' inner ∧
        ReplacesEscapedMarks inner "the \"owning\" customer".toList := by
  have balanced : describedRelation.isBalanced = true := by decide +kernel
  have taken : describedRelation.takeTrailingQuoted =
      (">Customer @label(\"a\") `\"` ".toList, some "the \"owning\" customer") := by
    decide +kernel
  exact ⟨balanced, taken, (takeTrailingQuoted_of_isBalanced balanced).2.1 _ (by rw [taken])⟩

end Text

end SchemaMarkup
