import Mathlib.Data.List.TakeWhile
import SchemaMarkup.Proofs.Outcome
import SchemaMarkup.Text.Balance

/-!
# Balance

A reader goes from one position to another, and a text is balanced if a reader that starts at top
level is never stopped by a closing bracket and is back at top level behind the text:
`Nesting.ReadsToEnd`. In this form balance can be taken apart where the text is
(`Nesting.readsToEnd_append`), and what is open around a text does not matter to it
(`Nesting.afterText_under`). So the closing bracket of a group is found without asking for the
kinds of brackets if the contents of the group are balanced, and in a balanced text they are.
-/

namespace SchemaMarkup

namespace Nesting

/-! ## Texts between positions -/

/-- Whether no closing bracket of the text closes nothing or the wrong kind. -/
def accepts (nesting : Nesting) : Text → Bool
  | [] => true
  | character :: rest => !nesting.rejects character && (nesting.after character).accepts rest

@[simp] theorem accepts_nil (nesting : Nesting) : nesting.accepts [] = true := rfl

@[simp] theorem accepts_cons (nesting : Nesting) (character : Char) (rest : Text) :
    nesting.accepts (character :: rest) =
      (!nesting.rejects character && (nesting.after character).accepts rest) := rfl

@[simp] theorem accepts_append (nesting : Nesting) (left right : Text) :
    nesting.accepts (left ++ right) =
      (nesting.accepts left && (nesting.afterText left).accepts right) := by
  induction left generalizing nesting with
  | nil => simp
  | cons character rest inductionHypothesis =>
      rw [List.cons_append, accepts_cons, accepts_cons, afterText_cons, inductionHypothesis,
        Bool.and_assoc]

/-- The text leads the reader to top level, and no closing bracket stops it on the way. -/
def ReadsToEnd (nesting : Nesting) (text : Text) : Prop :=
  nesting.accepts text = true ∧ nesting.afterText text = {}

theorem readsToEnd_append {nesting : Nesting} {left right : Text} :
    nesting.ReadsToEnd (left ++ right) ↔
      nesting.accepts left = true ∧ (nesting.afterText left).ReadsToEnd right := by
  rw [ReadsToEnd, ReadsToEnd, accepts_append, afterText_append, Bool.and_eq_true, and_assoc]

theorem readsToEnd_cons {nesting : Nesting} {character : Char} {rest : Text} :
    nesting.ReadsToEnd (character :: rest) ↔
      nesting.rejects character = false ∧ (nesting.after character).ReadsToEnd rest := by
  rw [ReadsToEnd, ReadsToEnd, accepts_cons, afterText_cons, Bool.and_eq_true,
    Bool.not_eq_true', and_assoc]

/-! ## Open brackets -/

/-- The position with more brackets open around it. -/
def under (nesting : Nesting) (outer : List Char) : Nesting :=
  { nesting with brackets := nesting.brackets ++ outer }

/-- A closing bracket that fits closes one of the inner brackets. -/
theorem exists_bracket_of_not_rejects {nesting : Nesting} {character : Char}
    (fits : nesting.rejects character = false) (outside : nesting.quoting = .outside)
    (closes : isCloser character = true) :
    ∃ bracket outer, nesting.brackets = bracket :: outer ∧ closerOf? bracket = some character := by
  cases brackets : nesting.brackets with
  | nil => simp [rejects, outside, closes, brackets] at fits
  | cons bracket outer =>
      refine ⟨bracket, outer, rfl, ?_⟩
      simpa [rejects, outside, closes, brackets] using fits

/-- What fits at a position fits there whatever is open around it, and leads to the same
position. -/
theorem after_under {nesting : Nesting} {character : Char}
    (fits : nesting.rejects character = false) (outer : List Char) :
    (nesting.under outer).rejects character = false ∧
      (nesting.under outer).after character = (nesting.after character).under outer := by
  obtain ⟨quoting, brackets⟩ := nesting
  cases quoting with
  | inside mark =>
      refine ⟨rfl, ?_⟩
      simp only [after, under]
      repeat' split
      all_goals rfl
  | escaping mark => exact ⟨rfl, rfl⟩
  | outside =>
      by_cases closes : isCloser character = true
      · obtain ⟨bracket, inner, rfl, fitting⟩ := exists_bracket_of_not_rejects fits rfl closes
        refine ⟨by simp [rejects, under, fitting], ?_⟩
        simp only [after, under]
        repeat' split
        all_goals rfl
      · rw [Bool.not_eq_true] at closes
        refine ⟨by simp [rejects, closes], ?_⟩
        simp only [after, under, closes, Bool.false_eq_true, if_false]
        repeat' split
        all_goals rfl

theorem afterText_under {nesting : Nesting} {text : Text} (accepted : nesting.accepts text = true)
    (outer : List Char) :
    (nesting.under outer).accepts text = true ∧
      (nesting.under outer).afterText text = (nesting.afterText text).under outer := by
  induction text generalizing nesting with
  | nil => exact ⟨rfl, rfl⟩
  | cons character rest inductionHypothesis =>
      rw [accepts_cons, Bool.and_eq_true, Bool.not_eq_true'] at accepted
      obtain ⟨fits, sameAfter⟩ := after_under accepted.1 outer
      obtain ⟨acceptedLater, sameLater⟩ := inductionHypothesis accepted.2
      rw [accepts_cons, fits, afterText_cons, sameAfter, acceptedLater, sameLater]
      exact ⟨rfl, rfl⟩

end Nesting

namespace Text

/-! ## Balanced texts -/

/-- The openings that are kept for a report are those of the open brackets. -/
theorem length_openings_after {nesting : Nesting} {openings : Openings}
    (inStep : openings.brackets.length = nesting.brackets.length) (offset : Nat)
    (character : Char) :
    (openings.after nesting offset character).brackets.length =
      (nesting.after character).brackets.length := by
  obtain ⟨quoting, brackets⟩ := nesting
  cases quoting with
  | inside mark =>
      simp only [Openings.after, Nesting.after]
      repeat' split
      all_goals exact inStep
  | escaping mark => exact inStep
  | outside =>
      simp only [Openings.after, Nesting.after]
      repeat' split
      all_goals simp_all

theorem checkBalance.go_isOk {nesting : Nesting} {openings : Openings} {offset : Nat} {text : Text}
    (inStep : openings.brackets.length = nesting.brackets.length) :
    (go nesting openings offset text).isOk = true ↔ nesting.ReadsToEnd text := by
  induction text generalizing nesting openings offset with
  | nil =>
      obtain ⟨quoting, brackets⟩ := nesting
      rw [go]
      cases quoting with
      | inside mark | escaping mark =>
          simp [Quoting.mark?, Nesting.ReadsToEnd, Except.isOk, Except.toBool]
      | outside =>
          cases brackets with
          | nil => simp [Quoting.mark?, Nesting.ReadsToEnd, Except.isOk, Except.toBool]
          | cons bracket outer =>
              cases opened : openings.brackets with
              | nil => simp [opened] at inStep
              | cons opening others =>
                  simp [Quoting.mark?, Nesting.ReadsToEnd, Except.isOk, Except.toBool]
  | cons character rest inductionHypothesis =>
      rw [go, Nesting.readsToEnd_cons]
      split
      · next rejects => simp [rejects, Except.isOk, Except.toBool]
      · next fits =>
          rw [inductionHypothesis (length_openings_after inStep offset character)]
          simp [fits]

/-- A text is balanced if it leads from top level to top level. -/
theorem isBalanced_iff {text : Text} :
    text.isBalanced = true ↔ ({} : Nesting).ReadsToEnd text :=
  checkBalance.go_isOk rfl

theorem checkBalance_eq_ok_iff {text : Text} :
    text.checkBalance = .ok () ↔ text.isBalanced = true := by
  rw [isBalanced]
  cases text.checkBalance <;> simp [Except.isOk, Except.toBool]

/-! ## Groups -/

/-- A closing bracket closes the last open one, and is right if it is of its kind. -/
theorem after_of_isCloser {bracket closer : Char} (closes : isCloser closer = true)
    (outer : List Char) :
    (({ brackets := bracket :: outer } : Nesting).rejects closer = false ↔
      closerOf? bracket = some closer) ∧
      ({ brackets := bracket :: outer } : Nesting).after closer = { brackets := outer } := by
  have noQuote : isQuote closer = false := by
    simp only [isCloser, Bool.or_eq_true, beq_iff_eq] at closes
    rcases closes with (rfl | rfl) | rfl <;> rfl
  have noOpener : isOpener closer = false := by
    simp only [isCloser, Bool.or_eq_true, beq_iff_eq] at closes
    rcases closes with (rfl | rfl) | rfl <;> rfl
  constructor
  · simp [Nesting.rejects, closes]
  · simp [Nesting.after, closes, noQuote, noOpener]

theorem isCloser_of_closerOf? {bracket closer : Char} (fitting : closerOf? bracket = some closer) :
    isCloser closer = true := by
  unfold closerOf? at fitting
  split at fitting
  all_goals cases fitting
  all_goals rfl

/-- The end of a group is where nothing else is open. -/
theorem endsGroup_under_iff {nesting : Nesting} {bracket character : Char} :
    (nesting.under [bracket]).endsGroup character = true ↔
      nesting = {} ∧ isCloser character = true := by
  obtain ⟨quoting, brackets⟩ := nesting
  simp [Nesting.endsGroup, Nesting.under, and_right_comm]

/-- Only the bracket of the group itself can be closed where nothing else is open. -/
theorem start_of_rejects {nesting : Nesting} {bracket character : Char}
    (fits : (nesting.under [bracket]).rejects character = false)
    (rejects : nesting.rejects character = true) :
    nesting = {} ∧ isCloser character = true := by
  obtain ⟨quoting, brackets⟩ := nesting
  cases brackets with
  | nil => simp_all [Nesting.rejects]
  | cons inside outer => simp_all [Nesting.rejects, Nesting.under]

/-- A character that fits without the bracket of the group does not end the group. -/
theorem goesOn_of_fits {nesting : Nesting} {bracket character : Char}
    (fits : nesting.rejects character = false) :
    ¬(nesting.under [bracket]).endsGroup character = true := by
  intro ends
  obtain ⟨rfl, closes⟩ := endsGroup_under_iff.mp ends
  simp [Nesting.rejects, closes] at fits

/-- A group with balanced contents is closed by the bracket behind them, whatever its kind. -/
theorem splitAtClose.go_under {nesting : Nesting} {bracket closer : Char} {inner later : Text}
    (reads : nesting.ReadsToEnd inner) (closes : isCloser closer = true) :
    go (nesting.under [bracket]) (inner ++ closer :: later) = .ok (inner, closer :: later) := by
  induction inner generalizing nesting with
  | nil =>
      have atTop : nesting = {} := reads.2
      rw [List.nil_append, go, if_pos (by simp [atTop, Nesting.endsGroup, Nesting.under, closes])]
  | cons character rest inductionHypothesis =>
      obtain ⟨fits, readsLater⟩ := Nesting.readsToEnd_cons.mp reads
      rw [List.cons_append, go, if_neg (goesOn_of_fits fits),
        (Nesting.after_under fits [bracket]).2, inductionHypothesis readsLater]
      rfl

/-- What leads from inside a group to top level holds the end of the group. -/
theorem exists_close_of_readsToEnd {nesting : Nesting} {bracket : Char} {text : Text}
    (reads : (nesting.under [bracket]).ReadsToEnd text) :
    ∃ inner closer later, text = inner ++ closer :: later ∧ nesting.ReadsToEnd inner ∧
      closerOf? bracket = some closer ∧ ({} : Nesting).ReadsToEnd later := by
  induction text generalizing nesting with
  | nil =>
      have brackets := congrArg Nesting.brackets reads.2
      simp [Nesting.under] at brackets
  | cons character rest inductionHypothesis =>
      obtain ⟨fits, readsLater⟩ := Nesting.readsToEnd_cons.mp reads
      by_cases rejects : nesting.rejects character = true
      · obtain ⟨rfl, closes⟩ := start_of_rejects fits rejects
        obtain ⟨fitting_iff, closed⟩ := @after_of_isCloser bracket character closes []
        exact ⟨[], character, rest, rfl, ⟨rfl, rfl⟩, fitting_iff.mp fits, closed ▸ readsLater⟩
      · rw [Bool.not_eq_true] at rejects
        rw [(Nesting.after_under rejects [bracket]).2] at readsLater
        obtain ⟨inner, closer, later, rfl, readsInner, fitting, readsBehind⟩ :=
          inductionHypothesis readsLater
        refine ⟨character :: inner, closer, later, rfl, ?_, fitting, readsBehind⟩
        exact Nesting.readsToEnd_cons.mpr ⟨rejects, readsInner⟩

/-- What is split before a closing bracket makes up the text again. -/
theorem splitAtClose.go_eq_ok {nesting : Nesting} {text before closing : Text}
    (split : go nesting text = .ok (before, closing)) :
    ∃ closer later, closing = closer :: later ∧ isCloser closer = true ∧
      text = before ++ closer :: later := by
  induction text generalizing nesting before closing with
  | nil => contradiction
  | cons character rest inductionHypothesis =>
      rw [go] at split
      split at split
      · next ends =>
          cases split
          simp only [Nesting.endsGroup, Bool.and_eq_true] at ends
          exact ⟨character, rest, rfl, ends.1.2, rfl⟩
      · obtain ⟨⟨front, back⟩, later, same⟩ := map_eq_ok_iff.mp split
        cases same
        obtain ⟨closer, behind, rfl, closes, rfl⟩ := inductionHypothesis later
        exact ⟨closer, behind, rfl, closes, rfl⟩

/-! ## Blanks -/

theorem isPlain_of_isBlank {character : Char} (blank : isBlank character = true) :
    isPlain character = true := by
  have apart : ∀ special : Char, isBlank special = false → character ≠ special := by
    rintro special notBlank rfl
    exact absurd (blank.symm.trans notBlank) (by decide)
  have noQuote : isQuote character = false := by
    simp [isQuote, apart '"' (by decide), apart '`' (by decide)]
  have noCloser : isCloser character = false := by
    simp [isCloser, apart ')' (by decide), apart ']' (by decide), apart '}' (by decide)]
  have noOpener : isOpener character = false := by
    simp [isOpener, closerOf?, apart '(' (by decide), apart '[' (by decide), apart '{' (by decide)]
  simp [isPlain, noQuote, noCloser, noOpener]

/-- Outside of strings a plain character changes nothing. -/
theorem after_of_isPlain {nesting : Nesting} {character : Char}
    (outside : nesting.quoting = .outside) (plain : isPlain character = true) :
    nesting.rejects character = false ∧ nesting.after character = nesting := by
  simp only [isPlain, Bool.and_eq_true, Bool.not_eq_true'] at plain
  obtain ⟨⟨noQuote, noOpener⟩, noCloser⟩ := plain
  simp [Nesting.rejects, Nesting.after, outside, noQuote, noOpener, noCloser]

theorem readsToEnd_of_blank {blanks : Text}
    (blank : ∀ character ∈ blanks, isBlank character = true) :
    ({} : Nesting).ReadsToEnd blanks := by
  induction blanks with
  | nil => exact ⟨rfl, rfl⟩
  | cons character rest inductionHypothesis =>
      obtain ⟨here, later⟩ := List.forall_mem_cons.mp blank
      obtain ⟨fits, stays⟩ := @after_of_isPlain {} character rfl (isPlain_of_isBlank here)
      rw [Nesting.readsToEnd_cons, stays]
      exact ⟨fits, inductionHypothesis later⟩

/-- A text is balanced if it is without the blanks at its ends. -/
theorem isBalanced_of_trim {text : Text} (balanced : text.trim.isBalanced = true) :
    text.isBalanced = true := by
  have front : text = text.takeWhile isBlank ++ text.trimStart :=
    (List.takeWhile_append_dropWhile).symm
  have back : text.trimStart = text.trim ++ (text.trimStart.reverse.takeWhile isBlank).reverse := by
    rw [trim, trimEnd, ← List.reverse_append, List.takeWhile_append_dropWhile, List.reverse_reverse]
  rw [isBalanced_iff] at balanced ⊢
  have before := readsToEnd_of_blank fun character listed =>
    List.mem_takeWhile_imp (l := text) listed
  have behind : ({} : Nesting).ReadsToEnd (text.trimStart.reverse.takeWhile isBlank).reverse :=
    readsToEnd_of_blank fun character listed =>
      List.mem_takeWhile_imp (List.mem_reverse.mp listed)
  rw [front, Nesting.readsToEnd_append, before.2, back, Nesting.readsToEnd_append, balanced.2]
  exact ⟨before.1, balanced.1, behind⟩

end Text

end SchemaMarkup
