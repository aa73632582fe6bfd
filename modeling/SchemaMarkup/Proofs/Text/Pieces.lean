import SchemaMarkup.Proofs.Text.Fronts
import SchemaMarkup.Proofs.Text.TopLevel

/-!
# Pieces and words of texts

The pieces of a text stand between the separators that it shows at top level, without the blanks
around them. Blank pieces count for nothing, so blanks and separators in front of a text add no
piece to it, and the pieces of a text are those before a separator at top level and those behind it
(`Text.pieces_append`). Words stand between blanks wherever these are (`Text.words_append`).
-/

namespace SchemaMarkup

namespace Text

/-! ## Trimmed texts -/

theorem isBlank_of_mem_space : ∀ character ∈ [' '], isBlank character = true :=
  List.all_eq_true.mp (by decide)

theorem trimEnd_append_blank (text : Text) {blanks : Text}
    (blank : ∀ character ∈ blanks, isBlank character = true) :
    trimEnd (text ++ blanks) = text.trimEnd := by
  rw [trimEnd, List.reverse_append, List.dropWhile_append_of_pos, trimEnd]
  exact fun character listed => blank character (List.mem_reverse.mp listed)

/-- A text that ends with no blank keeps its end. -/
theorem trimEnd_concat (text : Text) {last : Char} (filled : isBlank last = false) :
    trimEnd (text ++ [last]) = text ++ [last] := by
  rw [trimEnd, List.reverse_append, List.reverse_singleton, List.singleton_append,
    List.dropWhile_cons_of_neg (by simp [filled]), List.reverse_cons, List.reverse_reverse]

theorem trim_blank_append {blanks : Text} (text : Text)
    (blank : ∀ character ∈ blanks, isBlank character = true) :
    trim (blanks ++ text) = text.trim := by
  rw [trim, trimStart, List.dropWhile_append_of_pos blank, trim, trimStart]

theorem trim_append_blank (text : Text) {blanks : Text}
    (blank : ∀ character ∈ blanks, isBlank character = true) :
    trim (text ++ blanks) = text.trim := by
  rw [trim, trim, trimStart, List.dropWhile_append]
  split
  · next onlyBlanks =>
      have noneLeft : blanks.dropWhile isBlank = [] := List.dropWhile_eq_nil_iff.mpr blank
      rw [noneLeft, trimStart, List.isEmpty_iff.mp onlyBlanks]
  · exact trimEnd_append_blank _ blank

/-- A text with no blank at either end is trimmed. -/
theorem trim_eq_self {text : Text}
    (starts : ∀ first, text.head? = some first → isBlank first = false)
    (ends : ∀ last, text.getLast? = some last → isBlank last = false) : text.trim = text := by
  rw [trim, trimStart_eq_self starts]
  rcases List.eq_nil_or_concat' text with rfl | ⟨rest, last, rfl⟩
  · rfl
  · exact trimEnd_concat rest (ends last (by simp))

theorem isBlank_last_trimEnd {text : Text} {last : Char}
    (ends : text.trimEnd.getLast? = some last) : isBlank last = false := by
  rw [trimEnd, List.getLast?_reverse] at ends
  have blank := List.head?_dropWhile_not isBlank text.reverse
  rw [ends] at blank
  simpa using blank

/-- Trimmed text ends with no blank. -/
theorem isBlank_last_trim {text : Text} {last : Char} (ends : text.trim.getLast? = some last) :
    isBlank last = false :=
  isBlank_last_trimEnd ends

@[simp] theorem trim_trim (text : Text) : text.trim.trim = text.trim :=
  trim_eq_self (fun _ => isBlank_head_trim) fun _ => isBlank_last_trim

@[simp] theorem trimStart_trim (text : Text) : text.trim.trimStart = text.trim :=
  trimStart_eq_self fun _ => isBlank_head_trim

/-- What stands between trimmed texts is kept. -/
theorem trim_append_append {left right : Text} (middle : Text) (leftTrimmed : left.trim = left)
    (leftFilled : left ≠ []) (rightTrimmed : right.trim = right) (rightFilled : right ≠ []) :
    trim (left ++ (middle ++ right)) = left ++ (middle ++ right) := by
  obtain ⟨first, later, rfl⟩ := List.exists_cons_of_ne_nil leftFilled
  apply trim_eq_self
  · rintro _ ⟨⟩
    exact @isBlank_head_trim (first :: later) first (by rw [leftTrimmed]; rfl)
  · intro last isLast
    rw [List.getLast?_append_of_ne_nil _ (by simp [rightFilled]),
      List.getLast?_append_of_ne_nil _ rightFilled] at isLast
    exact @isBlank_last_trim right last (by rw [rightTrimmed, isLast])

theorem mem_intercalate {gap : Text} {items : List Text} {character : Char}
    (listed : character ∈ List.intercalate gap items) :
    character ∈ gap ∨ ∃ item ∈ items, character ∈ item := by
  induction items with
  | nil => contradiction
  | cons item others inductionHypothesis =>
      cases others with
      | nil => exact .inr ⟨item, List.mem_cons_self, by simpa using listed⟩
      | cons next later =>
          rw [List.intercalate_cons_cons, List.mem_append, List.mem_append] at listed
          rcases listed with (inItem | inGap) | isLater
          · exact .inr ⟨item, List.mem_cons_self, inItem⟩
          · exact .inl inGap
          · refine (inductionHypothesis isLater).imp_right ?_
            rintro ⟨found, isItem, inFound⟩
            exact ⟨found, List.mem_cons_of_mem item isItem, inFound⟩

theorem exists_last_of_intercalate (gap : Text) {items : List Text} (filled : items ≠ []) :
    ∃ front, ∃ last ∈ items, List.intercalate gap items = front ++ last := by
  induction items with
  | nil => contradiction
  | cons item others inductionHypothesis =>
      cases others with
      | nil => exact ⟨[], item, List.mem_cons_self, by simp⟩
      | cons next later =>
          obtain ⟨front, last, listed, whole⟩ := inductionHypothesis (List.cons_ne_nil next later)
          refine ⟨item ++ gap ++ front, last, List.mem_cons_of_mem item listed, ?_⟩
          rw [List.intercalate_cons_cons, whole, List.append_assoc _ front]

theorem trim_intercalate (gap : Text) {items : List Text}
    (trimmed : ∀ item ∈ items, item.trim = item ∧ item ≠ []) :
    trim (List.intercalate gap items) = List.intercalate gap items := by
  cases items with
  | nil => rfl
  | cons item others =>
      obtain ⟨⟨itemTrimmed, itemFilled⟩, trimmedLater⟩ := List.forall_mem_cons.mp trimmed
      cases others with
      | nil => rw [List.intercalate_singleton, itemTrimmed]
      | cons next later =>
          obtain ⟨front, last, listed, whole⟩ :=
            exists_last_of_intercalate gap (List.cons_ne_nil next later)
          obtain ⟨lastTrimmed, lastFilled⟩ := trimmedLater last listed
          rw [List.intercalate_cons_cons, whole, List.append_assoc, ← List.append_assoc gap]
          exact trim_append_append (gap ++ front) itemTrimmed itemFilled lastTrimmed lastFilled

theorem trim_of_filled {text : Text} (filled : ∀ character ∈ text, isBlank character = false) :
    text.trim = text :=
  trim_eq_self (fun _ starts => filled _ (List.mem_of_head? starts))
    fun _ ends => filled _ (List.mem_of_getLast? ends)

theorem nonBlank?_of_filled {text : Text} (filled : text.trim ≠ []) :
    text.nonBlank? = some (String.ofList text.trim) := by
  obtain ⟨first, rest, same⟩ := List.exists_cons_of_ne_nil filled
  rw [nonBlank?, same]

theorem nonBlank?_of_trimmed {text : Text} (trimmed : text.trim = text) (filled : text ≠ []) :
    text.nonBlank? = some (String.ofList text) := by
  rw [nonBlank?_of_filled (by rwa [trimmed]), trimmed]

theorem trimStart_of_blank {blanks : Text} (rest : Text)
    (blank : ∀ character ∈ blanks, isBlank character = true) :
    trimStart (blanks ++ rest) = rest.trimStart :=
  List.dropWhile_append_of_pos blank

/-- What follows the blanks in front of a text, and the blanks. -/
theorem exists_trimStart_append (text : Text) :
    ∃ blanks : Text, text = blanks ++ text.trimStart ∧
      ∀ character ∈ blanks, isBlank character = true :=
  ⟨text.takeWhile isBlank, (List.takeWhile_append_dropWhile).symm,
    fun _ listed => List.mem_takeWhile_imp listed⟩

/-- What stands before the blanks at the end of a text, and the blanks. -/
theorem exists_trimEnd_append (text : Text) :
    ∃ blanks : Text, text = text.trimEnd ++ blanks ∧
      ∀ character ∈ blanks, isBlank character = true := by
  obtain ⟨blanks, whole, blank⟩ := exists_trimStart_append text.reverse
  refine ⟨blanks.reverse, ?_, fun character listed => blank character (List.mem_reverse.mp listed)⟩
  rw [trimEnd, ← trimStart, ← List.reverse_append, ← whole, List.reverse_reverse]

/-- A text that starts with no blank starts with its trimmed text, and blanks follow it. -/
theorem exists_trim_append {first : Char} {rest : Text} (filled : isBlank first = false) :
    trim (first :: rest) ≠ [] ∧ ∃ blanks : Text, first :: rest = trim (first :: rest) ++ blanks ∧
      ∀ character ∈ blanks, isBlank character = true := by
  have kept : trimStart (first :: rest) = first :: rest :=
    List.dropWhile_cons_of_neg (by simp [filled])
  obtain ⟨blanks, whole, blank⟩ := exists_trimEnd_append (first :: rest)
  rw [trim, kept]
  refine ⟨?_, blanks, whole, blank⟩
  intro isBlankText
  rw [isBlankText, List.nil_append] at whole
  exact absurd (blank first (whole ▸ List.mem_cons_self)) (by simp [filled])

/-! ## Pieces -/

variable {separator : Char}

/-- A text that does not show the separator is one piece, unless it is blank. -/
theorem pieces_of_hidden {text : Text}
    (hidden : ({} : Nesting).shows (· == separator) text = false) :
    text.pieces separator = if text.trim = [] then [] else [text.trim] := by
  rw [pieces, splitAt_of_hidden hidden]
  by_cases blank : text.trim = []
  · simp [blank]
  · simp [blank]

/-- The pieces of a text are those before a separator at top level and those behind it. -/
theorem pieces_append {front : Text} (rest : Text)
    (hidden : ({} : Nesting).shows (· == separator) front = false)
    (atTop : ({} : Nesting).afterText front = {}) (plain : isPlain separator = true) :
    pieces separator (front ++ separator :: rest) =
      front.pieces separator ++ rest.pieces separator := by
  rw [pieces, splitAt_append rest hidden atTop plain, pieces, splitAt_of_hidden hidden, pieces,
    ← List.filter_append, ← List.map_append, List.singleton_append]

@[simp] theorem pieces_nil : pieces separator [] = [] := rfl

/-- A separator in front of a text adds no piece. -/
theorem pieces_cons_separator (text : Text) (plain : isPlain separator = true) :
    pieces separator (separator :: text) = text.pieces separator :=
  @pieces_append separator [] text rfl rfl plain

/-- A blank in front of a text adds no piece. -/
theorem pieces_cons_blank {blank : Char} (text : Text) (isBlankHere : isBlank blank = true)
    (other : blank ≠ separator) : pieces separator (blank :: text) = text.pieces separator := by
  have plain : isPlain blank = true := isPlain_of_isBlank isBlankHere
  have stays := (@after_of_isPlain {} blank rfl plain).2
  have hidden : ({} : Nesting).shows (· == separator) [blank] = false := by
    simp [other]
  have passed := splitAt.go_append_of_hidden hidden text
  rw [List.singleton_append, Nesting.afterText_cons, stays, Nesting.afterText_nil] at passed
  rw [pieces, pieces, splitAt, splitAt, passed]
  cases split : splitAt.go separator {} text with
  | nil => exact absurd split (splitAt.go_ne_nil separator {} text)
  | cons piece others =>
      have trimmed : trim (blank :: piece) = trim piece :=
        @trim_blank_append [blank] piece (by simpa using isBlankHere)
      simp [trimmed]

theorem pieces_blank_append {blanks : Text} (text : Text)
    (blank : ∀ character ∈ blanks, isBlank character = true ∧ character ≠ separator) :
    pieces separator (blanks ++ text) = text.pieces separator := by
  induction blanks with
  | nil => rfl
  | cons character rest inductionHypothesis =>
      obtain ⟨⟨isBlankHere, other⟩, later⟩ := List.forall_mem_cons.mp blank
      rw [List.cons_append, pieces_cons_blank _ isBlankHere other, inductionHypothesis later]

/-- Texts that are trimmed and do not show the separator are the pieces of what they make up with
separators and blanks between them. -/
theorem pieces_intercalate {items : List Text} {blanks : Text} (plain : isPlain separator = true)
    (blank : ∀ character ∈ blanks, isBlank character = true ∧ character ≠ separator)
    (apart : ∀ item ∈ items, Seals (· == separator) item ∧ item.trim = item ∧ item ≠ []) :
    pieces separator (List.intercalate (separator :: blanks) items) = items := by
  induction items with
  | nil => rfl
  | cons item others inductionHypothesis =>
      obtain ⟨⟨sealed, trimmed, filled⟩, apartLater⟩ := List.forall_mem_cons.mp apart
      have alone : item.pieces separator = [item] := by
        rw [pieces_of_hidden sealed.hides, trimmed, if_neg filled]
      cases others with
      | nil => simpa using alone
      | cons next later =>
          rw [List.intercalate_cons_cons, List.append_assoc, List.cons_append,
            pieces_append _ sealed.hides sealed.reads.2 plain, pieces_blank_append _ blank,
            inductionHypothesis apartLater, alone]
          rfl

/-! ## Words -/

theorem words.foldr_append (word rest : Text)
    (filled : ∀ character ∈ word, isBlank character = false) :
    (word ++ rest).foldr step ([], []) =
      (word ++ (rest.foldr step ([], [])).1, (rest.foldr step ([], [])).2) := by
  induction word with
  | nil => rfl
  | cons character later inductionHypothesis =>
      obtain ⟨filledHere, filledLater⟩ := List.forall_mem_cons.mp filled
      rw [List.cons_append, List.foldr_cons, inductionHypothesis filledLater, step, filledHere]
      rfl

/-- A text starts with its first word, which a blank or the end follows. -/
theorem words_append {word rest : Text} (isWord : word ≠ [])
    (filled : ∀ character ∈ word, isBlank character = false)
    (ends : ∀ next, rest.head? = some next → isBlank next = true) :
    words (word ++ rest) = word :: rest.words := by
  rw [words, words.foldr_append word rest filled]
  cases rest with
  | nil => simp [words.close, words, isWord]
  | cons next later => simp [words.close, words, words.step, ends next rfl, isWord]

theorem words_cons_blank {blank : Char} (text : Text) (isBlankHere : isBlank blank = true) :
    words (blank :: text) = text.words := by
  simp [words, words.step, words.close, isBlankHere]

end Text

end SchemaMarkup
