import SchemaMarkup.Grammar.Header

/-!
# Fronts of lines

A line is taken apart from behind: descriptions, attributes and parents are cut off until only the
name is left. So whatever is left at any point is a prefix of the line, and the name that a
trimmed line declares is what the line starts with.
-/

namespace SchemaMarkup

namespace Text

/-! ## Words -/

/-- A text that goes on after a word starts with it. -/
theorem startsWith_append (word : String) (rest : Text) :
    startsWith (word.toList ++ rest) word = true := by
  rw [startsWith, List.isPrefixOf_iff_prefix]
  exact List.prefix_append _ _

/-- A word occurs wherever it stands. -/
theorem containsWord_append (front rest : Text) (word : String) :
    containsWord (front ++ (word.toList ++ rest)) word = true := by
  induction front with
  | nil =>
      have starts := startsWith_append word rest
      rw [List.nil_append]
      cases whole : word.toList ++ rest with
      | nil => rwa [whole] at starts
      | cons character later =>
          rw [whole] at starts
          rw [containsWord, starts, Bool.true_or]
  | cons character later inductionHypothesis =>
      rw [List.cons_append, containsWord, inductionHypothesis, Bool.or_true]

/-! ## Trimmed text -/

/-- A sign that the second part of a text does not hold stands in the first part. -/
theorem exists_of_not_mem_right {sign : Char} {left right front back : Text}
    (absent : sign ∉ right) (whole : left ++ right = front ++ sign :: back) :
    ∃ gap, left = front ++ sign :: gap := by
  rcases List.append_eq_append_iff.mp whole with ⟨gap, _, behind⟩ | ⟨gap, same, behind⟩
  · exact absurd (behind ▸ List.mem_append_right gap List.mem_cons_self) absent
  · cases gap with
    | nil =>
        rw [List.nil_append] at behind
        exact absurd (behind ▸ List.mem_cons_self) absent
    | cons first gap =>
        obtain ⟨rfl, _⟩ := List.cons.inj behind
        exact ⟨gap, same⟩

theorem isPrefix_trimEnd (text : Text) : text.trimEnd <+: text := by
  rw [trimEnd, ← List.reverse_suffix, List.reverse_reverse]
  exact List.dropWhile_suffix isBlank

/-- A trimmed text does not end with a sign that the text does not hold. -/
theorem getLast?_trimEnd_ne {text : Text} {sign : Char} (absent : sign ∉ text) :
    text.trimEnd.getLast? ≠ some sign := fun ends =>
  absent ((isPrefix_trimEnd text).subset (List.mem_of_getLast? ends))

/-- Trimmed text starts with no blank. -/
theorem isBlank_head_trim {text : Text} {first : Char} (starts : text.trim.head? = some first) :
    isBlank first = false := by
  obtain ⟨rest, whole⟩ := text.trimStart.isPrefix_trimEnd
  have within : text.trimStart.head? = some first := by
    rw [← whole, List.head?_append, ← trim, starts]
    rfl
  have blank := List.head?_dropWhile_not isBlank text
  rw [← trimStart, within] at blank
  simpa using blank

theorem trimStart_eq_self {text : Text}
    (starts : ∀ first, text.head? = some first → isBlank first = false) :
    text.trimStart = text := by
  cases text with
  | nil => rfl
  | cons first rest => rw [trimStart, List.dropWhile_cons_of_neg (by simp [starts first rfl])]

/-- A text that starts with no blank keeps its front. -/
theorem isPrefix_trim {text : Text}
    (starts : ∀ first, text.head? = some first → isBlank first = false) :
    text.trim <+: text := by
  rw [trim, trimStart_eq_self starts]
  exact text.isPrefix_trimEnd

/-! ## What cuts leave in front -/

/-- A cut is made where it is asked for. -/
theorem cutWhere.stop_of_go {stop : Option Char → Char → Text → Bool} {nesting : Nesting}
    {previous : Option Char} {text : Text} {cut : Cut}
    (found : go stop nesting previous text = some cut) :
    ∃ previous, stop previous cut.mark cut.following = true := by
  induction text generalizing nesting previous cut with
  | nil => contradiction
  | cons character rest inductionHypothesis =>
      rw [go] at found
      split at found
      · next stops =>
          cases found
          exact ⟨previous, (Bool.and_eq_true_iff.mp stops).2⟩
      · obtain ⟨inner, later, rfl⟩ := Option.map_eq_some_iff.mp found
        obtain ⟨before, stops⟩ := inductionHypothesis later
        exact ⟨before, stops⟩

theorem stop_of_cutWhere {stop : Option Char → Char → Text → Bool} {text : Text} {cut : Cut}
    (found : text.cutWhere stop = some cut) :
    ∃ previous, stop previous cut.mark cut.following = true :=
  cutWhere.stop_of_go found

theorem isPrefix_before_of_cutWhere {stop : Option Char → Char → Text → Bool} {text : Text}
    {cut : Cut} (found : text.cutWhere stop = some cut) : cut.before <+: text :=
  ⟨_, cutWhere_append found⟩

theorem isPrefix_splitDescription (text : Text) : text.splitDescription.1 <+: text := by
  rw [splitDescription]
  split
  · next cut found => exact isPrefix_before_of_cutWhere found
  · exact List.prefix_rfl

/-- A text without `#` has no description. -/
theorem splitDescription_of_not_mem {text : Text} (noHash : '#' ∉ text) :
    text.splitDescription = (text, none) := by
  rw [splitDescription]
  split
  · next cut found =>
      obtain ⟨_, stops⟩ := stop_of_cutWhere found
      simp only [Bool.and_eq_true, beq_iff_eq] at stops
      rw [← cutWhere_append found, stops.1.1] at noHash
      exact absurd (List.mem_append_right _ List.mem_cons_self) noHash
  · rfl

theorem splitAtLastString.isPrefix_of_go {nesting : Nesting} {text before string : Text}
    (found : go nesting text = some (before, string)) : before <+: text := by
  induction text generalizing nesting before string with
  | nil => contradiction
  | cons character rest inductionHypothesis =>
      rw [go] at found
      split at found
      · next later =>
          cases found
          exact List.cons_prefix_cons.mpr ⟨rfl, inductionHypothesis later⟩
      · split at found
        · cases found
          exact List.nil_prefix
        · contradiction

theorem isPrefix_takeTrailingQuoted (text : Text) : text.takeTrailingQuoted.1 <+: text := by
  simp only [takeTrailingQuoted]
  split
  · next before quote string found =>
      split
      · exact (splitAtLastString.isPrefix_of_go found).trans text.isPrefix_trimEnd
      · exact List.prefix_rfl
  · exact List.prefix_rfl

/-- The name that a front of a text declares is what the text starts with, if it starts with no
blank. -/
theorem isPrefix_name_of_splitNameLabel? {text front : Text} {name : String}
    {label : Option String} (starts : ∀ first, text.head? = some first → isBlank first = false)
    (isFront : front <+: text) (isSplit : front.splitNameLabel? = some (name, label)) :
    name.toList <+: text := by
  have sameHead : ∀ {piece whole : Text} {first : Char}, piece <+: whole →
      piece.head? = some first → whole.head? = some first := by
    rintro piece _ first ⟨rest, rfl⟩ isFirst
    rw [List.head?_append, isFirst]
    rfl
  have trimmed : front.trim <+: text :=
    (isPrefix_trim fun first isFirst => starts first (sameHead isFront isFirst)).trans isFront
  have named : trim (front.trim.takeWhile (· != '(')) <+: text := by
    have unlabelled := (List.takeWhile_prefix (· != '(')).trans trimmed
    exact (isPrefix_trim fun first isFirst =>
      starts first (sameHead unlabelled isFirst)).trans unlabelled
  simp only [splitNameLabel?] at isSplit
  split at isSplit
  · split at isSplit
    · obtain ⟨rfl, _⟩ := Prod.mk.inj (Option.some.inj isSplit)
      rwa [String.toList_ofList]
    · contradiction
  · split at isSplit
    · obtain ⟨rfl, _⟩ := Prod.mk.inj (Option.some.inj isSplit)
      rwa [String.toList_ofList]
    · contradiction

end Text

/-! ## Headers -/

namespace Header

/-- A header that holds no `::` has no kind mark. -/
theorem splitKindMark_of_unmarked {text : Text} (unmarked : text.containsWord "::" = false) :
    splitKindMark text = .ok (text, none) := by
  rw [splitKindMark]
  split
  · rfl
  · next cut found =>
      obtain ⟨previous, stops⟩ := Text.stop_of_cutWhere found
      obtain ⟨isMark, follows⟩ := Bool.and_eq_true_iff.mp stops
      obtain ⟨rest, following⟩ := List.head?_eq_some_iff.mp (eq_of_beq follows)
      have whole := Text.cutWhere_append found
      rw [eq_of_beq isMark, following] at whole
      have marked := Text.containsWord_append cut.before rest "::"
      rw [show cut.before ++ ("::".toList ++ rest) = text from whole] at marked
      exact absurd (marked.symm.trans unmarked) (by decide)

theorem isPrefix_splitAttributes (text : Text) : (splitAttributes text).1 <+: text := by
  rw [splitAttributes]
  split
  · next cut found => exact Text.isPrefix_before_of_cutWhere found
  · exact List.prefix_rfl

end Header

end SchemaMarkup
