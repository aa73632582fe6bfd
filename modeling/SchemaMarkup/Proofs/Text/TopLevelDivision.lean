import SchemaMarkup.Proofs.Text.BalanceGrammar
import SchemaMarkup.Proofs.Text.Pieces

/-!
# Divisions at top level

A sign stands at top level of a text if what is in front of it is well nested. A balanced text is
divided by the separators at top level into balanced parts without such separators, and in one way
only (`Text.divides_of_isBalanced`). So it does no harm that balance is checked once and the parts
are cut again and again: the readers that cut count brackets without asking for their kinds, and in
balanced text this comes to the same.
-/

namespace SchemaMarkup

namespace Text

/-- The sign stands in the text outside of all strings and groups. -/
def HoldsAtTop (text : Text) (sign : Char) : Prop :=
  ∃ front back, text = front ++ sign :: back ∧ front.WellNested

/-- The text is its parts with the separator between them. The parts are balanced and hold no
separator at top level themselves. -/
structure DividesInto (text : Text) (separator : Char) (parts : List Text) : Prop where
  whole : text = List.intercalate [separator] parts
  filled : parts ≠ []
  balanced : ∀ part ∈ parts, part.isBalanced = true
  apart : ∀ part ∈ parts, ¬part.HoldsAtTop separator

/-- The byte offset of the first character at top level that is the sign. -/
def topLevelOffset? (text : Text) (sign : Char) : Option Nat :=
  (text.topLevel.find? fun seen => seen.2 == sign).map Prod.fst

variable {text part first : Text} {separator sign : Char} {parts others : List Text}

/-! ## Signs at top level -/

/-- What a text shows to a reader is what it holds at top level. -/
theorem shows_iff_holdsAtTop (accepted : ({} : Nesting).accepts text = true) :
    ({} : Nesting).shows (· == sign) text = true ↔ text.HoldsAtTop sign := by
  constructor
  · intro isShown
    rcases hidden_or_first sign {} text with hidden | ⟨front, back, rfl, _, atTop⟩
    · rw [hidden] at isShown
      contradiction
    · rw [Nesting.accepts_append, Bool.and_eq_true] at accepted
      exact ⟨front, back, rfl, leavesOpen_nil_iff.mp (leavesOpen_iff.mpr ⟨accepted.1, atTop⟩)⟩
  · rintro ⟨front, back, rfl, nested⟩
    rw [Nesting.shows_append, nested.reads.2, Nesting.shows_cons]
    simp [Nesting.isTop]

/-- To seal a sign is to be balanced without the sign at top level. -/
theorem seals_iff_not_holdsAtTop :
    Seals (· == sign) text ↔ text.isBalanced = true ∧ ¬text.HoldsAtTop sign := by
  constructor
  · intro sealed
    rw [← shows_iff_holdsAtTop sealed.reads.1, sealed.hides]
    exact ⟨sealed.isBalanced, Bool.false_ne_true⟩
  · rintro ⟨balanced, apart⟩
    have reads := isBalanced_iff.mp balanced
    rw [← shows_iff_holdsAtTop reads.1, Bool.not_eq_true] at apart
    exact ⟨reads, apart⟩

/-- The offset of a sign is where the text is cut at the sign. -/
theorem find?_topLevel_go (nesting : Nesting) (offset : Nat) (previous : Option Char)
    (text : Text) :
    ((topLevel.go nesting offset text).find? fun seen => seen.2 == sign).map Prod.fst =
      (cutWhere.go (fun _ character _ => character == sign) nesting previous text).map fun cut =>
        offset + cut.before.byteLength := by
  induction text generalizing nesting offset previous with
  | nil => rfl
  | cons character rest inductionHypothesis =>
      have later := inductionHypothesis (nesting.after character) (offset + character.utf8Size)
        (some character)
      rw [topLevel.go, cutWhere.go]
      by_cases sees : nesting.seesTop character = true
      · by_cases isSign : (character == sign) = true
        · simp [sees, isSign]
        · simp [sees, isSign, later, Function.comp_def, Nat.add_assoc]
      · simp [sees, later, Function.comp_def, Nat.add_assoc]

theorem topLevelOffset?_eq_cutAt (text : Text) (sign : Char) :
    text.topLevelOffset? sign = (text.cutAt sign).map fun cut => cut.before.byteLength := by
  have found := @find?_topLevel_go sign {} 0 none text
  simp only [Nat.zero_add] at found
  exact found

/-! ## Divisions -/

theorem DividesInto.seals (divides : text.DividesInto separator parts) :
    ∀ part ∈ parts, Seals (· == separator) part := fun part listed =>
  seals_iff_not_holdsAtTop.mpr ⟨divides.balanced part listed, divides.apart part listed⟩

/-- The parts behind the first one divide the text behind the first separator. -/
theorem DividesInto.tail (divides : text.DividesInto separator (first :: others))
    (more : others ≠ []) :
    text = first ++ separator :: List.intercalate [separator] others ∧
      DividesInto (List.intercalate [separator] others) separator others := by
  obtain ⟨next, later, rfl⟩ := List.exists_cons_of_ne_nil more
  refine ⟨?_, rfl, more, ?_, ?_⟩
  · rw [divides.whole, List.intercalate_cons_cons, List.append_assoc, List.singleton_append]
  · exact fun part listed => divides.balanced part (List.mem_cons_of_mem first listed)
  · exact fun part listed => divides.apart part (List.mem_cons_of_mem first listed)

/-- There is no other division of a text than the split at its separators. -/
theorem DividesInto.splitAt_eq (plain : isPlain separator = true)
    (divides : text.DividesInto separator parts) : text.splitAt separator = parts := by
  induction parts generalizing text with
  | nil => exact absurd rfl divides.filled
  | cons first others inductionHypothesis =>
      have sealed := divides.seals first List.mem_cons_self
      by_cases more : others = []
      · subst more
        rw [divides.whole, List.intercalate_singleton]
        exact splitAt_of_hidden sealed.hides
      · obtain ⟨whole, dividesLater⟩ := divides.tail more
        rw [whole, splitAt_append _ sealed.hides sealed.reads.2 plain,
          inductionHypothesis dividesLater]

/-- A text is cut behind its first part. -/
theorem DividesInto.cutAt_eq (plain : isPlain separator = true)
    (divides : text.DividesInto separator (first :: others)) :
    text.cutAt separator = if others = [] then none else
      some { before := first, mark := separator,
             following := List.intercalate [separator] others } := by
  have sealed := divides.seals first List.mem_cons_self
  by_cases more : others = []
  · subst more
    rw [divides.whole, List.intercalate_singleton, if_pos rfl]
    exact cutAtAny_eq_none sealed.hides
  · rw [(divides.tail more).1, if_neg more]
    exact cutAtAny_append sealed plain (beq_self_eq_true separator)

/-- What stands in front of a separator at top level is balanced, and so is what stands behind. -/
theorem balanced_around {front rest : Text} (plain : isPlain separator = true)
    (atTop : ({} : Nesting).afterText front = {})
    (balanced : isBalanced (front ++ separator :: rest) = true) :
    front.isBalanced = true ∧ rest.isBalanced = true := by
  obtain ⟨accepted, readsRest⟩ := Nesting.readsToEnd_append.mp (isBalanced_iff.mp balanced)
  rw [atTop, Nesting.readsToEnd_cons, (@after_of_isPlain {} separator rfl plain).2] at readsRest
  exact ⟨isBalanced_iff.mpr ⟨accepted, atTop⟩, isBalanced_iff.mpr readsRest.2⟩

/-- The split of a balanced text divides it. -/
theorem dividesInto_splitAt (plain : isPlain separator = true) {text : Text}
    (balanced : text.isBalanced = true) :
    text.DividesInto separator (text.splitAt separator) := by
  rcases hidden_or_first separator {} text with hidden | ⟨front, rest, rfl, hidden, atTop⟩
  · have sealed : Seals (· == separator) text := ⟨isBalanced_iff.mp balanced, hidden⟩
    have apart := (seals_iff_not_holdsAtTop.mp sealed).2
    rw [splitAt_of_hidden hidden]
    refine ⟨List.intercalate_singleton.symm, List.cons_ne_nil _ _, ?_, ?_⟩
    · simpa using balanced
    · simpa using apart
  · obtain ⟨balancedFront, balancedRest⟩ := balanced_around plain atTop balanced
    have sealed : Seals (· == separator) front := ⟨isBalanced_iff.mp balancedFront, hidden⟩
    have divides := dividesInto_splitAt plain balancedRest
    obtain ⟨next, later, parts⟩ := List.exists_cons_of_ne_nil divides.filled
    rw [splitAt_append rest hidden atTop plain]
    refine ⟨?_, List.cons_ne_nil _ _, ?_, ?_⟩
    · rw [parts, List.intercalate_cons_cons, ← parts, ← divides.whole, List.append_assoc,
        List.singleton_append]
    · exact List.forall_mem_cons.mpr ⟨balancedFront, divides.balanced⟩
    · exact List.forall_mem_cons.mpr ⟨(seals_iff_not_holdsAtTop.mp sealed).2, divides.apart⟩
termination_by text.length

/-- A balanced text is divided in exactly one way into balanced parts without separators at top
level. It is cut behind the first part, and split into the trimmed parts that are not blank. -/
theorem divides_of_isBalanced (balanced : text.isBalanced = true)
    (plain : isPlain separator = true) :
    ∃ first others, (∀ parts, text.DividesInto separator parts ↔ parts = first :: others) ∧
      text.topLevelOffset? separator = (if others = [] then none else some first.byteLength) ∧
      text.cutAt separator = (if others = [] then none else
        some { before := first, mark := separator,
               following := List.intercalate [separator] others }) ∧
      text.pieces separator =
        ((first :: others).map trim).filter fun piece => !piece.isEmpty := by
  have divides := dividesInto_splitAt plain balanced
  obtain ⟨first, others, isSplit⟩ := List.exists_cons_of_ne_nil divides.filled
  have unique : ∀ parts, text.DividesInto separator parts ↔ parts = first :: others := by
    refine fun parts => ⟨fun dividesToo => ?_, fun same => ?_⟩
    · rw [← dividesToo.splitAt_eq plain, isSplit]
    · rwa [same, ← isSplit]
  have isCut := ((unique (first :: others)).mpr rfl).cutAt_eq plain
  refine ⟨first, others, unique, ?_, isCut, ?_⟩
  · rw [topLevelOffset?_eq_cutAt, isCut]
    split <;> rfl
  · rw [pieces, isSplit]

/-- A list in which commas stand in a string and in groups as well. -/
def argumentLine : Text :=
  "name, \"a, b\", call(x, y), [A, B]".toList

/-- Only the commas at top level divide the list. -/
theorem argumentLine_divides :
    argumentLine.isBalanced = true ∧ isPlain ',' = true ∧
      (∀ parts, argumentLine.DividesInto ',' parts ↔
        parts = ["name", " \"a, b\"", " call(x, y)", " [A, B]"].map String.toList) ∧
      argumentLine.topLevelOffset? ',' = some 4 ∧
      argumentLine.pieces ',' =
        ["name", "\"a, b\"", "call(x, y)", "[A, B]"].map String.toList := by
  have balanced : argumentLine.isBalanced = true := by decide +kernel
  have isSplit : argumentLine.splitAt ',' =
      ["name", " \"a, b\"", " call(x, y)", " [A, B]"].map String.toList := by
    decide +kernel
  obtain ⟨first, others, unique, offset, _, pieces⟩ :=
    @divides_of_isBalanced argumentLine ',' balanced rfl
  have same := ((unique (first :: others)).mpr rfl).splitAt_eq rfl
  rw [isSplit] at same
  rw [← same] at unique pieces
  obtain ⟨rfl, rfl⟩ := List.cons.inj same
  exact ⟨balanced, rfl, unique, offset, by rw [pieces]; decide +kernel⟩

end Text

end SchemaMarkup
