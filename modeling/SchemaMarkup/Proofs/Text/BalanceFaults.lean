import SchemaMarkup.Proofs.Text.BalanceGrammar
import SchemaMarkup.Proofs.Text.OuterBlanks

/-!
# The faults of texts that are not balanced

The check of balance remembers where the string it is in and the brackets that are open started. A
well-nested text is passed with these brackets unchanged (`Text.checkBalance.go_wellNested`), so
behind a text that leaves brackets open the last of them is the one that is remembered. Hence the
check accepts the grammar of balanced texts, and what it reports otherwise is the first fault of the
text (`Text.checkBalance_exact`).
-/

namespace SchemaMarkup

namespace Text

variable {text front inner : Text} {mark : Char} {brackets : List Char}

namespace checkBalance

/-- The check goes on behind a character that fits. -/
theorem go_cons {nesting : Nesting} {character : Char} (fits : nesting.rejects character = false)
    (openings : Openings) (offset : Nat) (rest : Text) :
    go nesting openings offset (character :: rest) =
      go (nesting.after character) (openings.after nesting offset character)
        (offset + character.utf8Size) rest := by
  rw [go, if_neg (by simp [fits])]

/-- Where a string started is remembered through the body of the string. -/
theorem go_stringBody (body : StringBody mark inner) (brackets : List Char) (openings : Openings)
    (offset : Nat) (rest : Text) :
    go { quoting := .inside mark, brackets } openings offset (inner ++ rest) =
      go { quoting := .inside mark, brackets } openings (offset + inner.byteLength) rest := by
  induction body generalizing offset with
  | nil => rfl
  | escaped _ inductionHypothesis =>
      rw [List.cons_append, List.cons_append, go_cons rfl, go_cons rfl]
      refine (inductionHypothesis _).trans ?_
      rw [byteLength_cons, byteLength_cons, ← Nat.add_assoc, ← Nat.add_assoc]
  | plain noMark noBackslash _ inductionHypothesis =>
      rw [List.cons_append, go_cons rfl, after_of_contents noMark noBackslash]
      refine (inductionHypothesis _).trans ?_
      rw [byteLength_cons, ← Nat.add_assoc]

/-- The check passes a string and comes back to the brackets around it. -/
theorem go_string (isMark : isQuote mark = true) (body : StringBody mark inner)
    (brackets : List Char) (openings : Openings) (offset : Nat) (rest : Text) :
    go { brackets } openings offset (mark :: (inner ++ mark :: rest)) =
      go { brackets } { openings with quote := offset }
        (offset + byteLength (mark :: (inner ++ [mark]))) rest := by
  obtain ⟨fits, started, ended⟩ := after_of_isQuote isMark brackets
  have remembered : openings.after { brackets } offset mark =
      { openings with quote := offset } := by
    simp [Openings.after, isMark]
  rw [go_cons fits, started, remembered, go_stringBody body, go_cons rfl, ended]
  simp [Openings.after, Nat.add_assoc]

/-- An opening bracket is remembered as the innermost one. -/
theorem go_opener {bracket : Char} (opens : isOpener bracket = true) (brackets : List Char)
    (openings : Openings) (offset : Nat) (rest : Text) :
    go { brackets } openings offset (bracket :: rest) =
      go { brackets := bracket :: brackets }
        { openings with brackets := offset :: openings.brackets } (offset + bracket.utf8Size)
        rest := by
  obtain ⟨fits, opened⟩ := after_of_isOpener opens brackets
  have noQuote : isQuote bracket = false := by
    obtain ⟨closer, closes⟩ := Option.isSome_iff_exists.mp opens
    rcases closerOf?_cases closes with ⟨rfl, _⟩ | ⟨rfl, _⟩ | ⟨rfl, _⟩ <;> rfl
  rw [go_cons fits, opened]
  simp [Openings.after, noQuote, opens]

/-- A closing bracket that fits takes the innermost opening with it. -/
theorem go_closer {bracket closer : Char} (closes : closerOf? bracket = some closer)
    (brackets : List Char) (openings : Openings) (offset : Nat) (rest : Text) :
    go { brackets := bracket :: brackets } openings offset (closer :: rest) =
      go { brackets } { openings with brackets := openings.brackets.tail }
        (offset + closer.utf8Size) rest := by
  obtain ⟨fitting_iff, closed⟩ :=
    @after_of_isCloser bracket closer (isCloser_of_closerOf? closes) brackets
  rw [go_cons (fitting_iff.mpr closes), closed]
  rcases closerOf?_cases closes with ⟨_, rfl⟩ | ⟨_, rfl⟩ | ⟨_, rfl⟩ <;> rfl

/-- A well-nested text is passed, and the openings of the brackets around it are the same behind
it. -/
theorem go_wellNested (nested : front.WellNested) (brackets : List Char) (openings : Openings)
    (offset : Nat) :
    ∃ quote, ∀ rest, go { brackets } openings offset (front ++ rest) =
      go { brackets } { openings with quote } (offset + front.byteLength) rest := by
  -- Only the start of the last string is remembered, so a string leaves a trace of itself there.
  induction nested generalizing brackets openings offset with
  | nil => exact ⟨openings.quote, fun rest => rfl⟩
  | @plain character later isPlain _ inductionHypothesis =>
      obtain ⟨fits, stays⟩ := @after_of_isPlain { brackets } character rfl isPlain
      obtain ⟨quote, passes⟩ :=
        inductionHypothesis brackets openings (offset + character.utf8Size)
      refine ⟨quote, fun rest => ?_⟩
      rw [List.cons_append, go_cons fits, stays, openings_after_of_isPlain openings offset isPlain,
        passes, byteLength_cons, Nat.add_assoc]
  | @string mark inner later isMark body _ inductionHypothesis =>
      obtain ⟨quote, passes⟩ := inductionHypothesis brackets { openings with quote := offset }
        (offset + byteLength (mark :: (inner ++ [mark])))
      refine ⟨quote, fun rest => ?_⟩
      rw [List.cons_append, List.append_assoc, List.cons_append, go_string isMark body, passes]
      simp [Nat.add_assoc]
  | @group bracket closer inner later closes _ _ passesInner passesLater =>
      have opens : isOpener bracket = true := Option.isSome_iff_exists.mpr ⟨closer, closes⟩
      obtain ⟨quoteInner, passesInner⟩ := passesInner (bracket :: brackets)
        { openings with brackets := offset :: openings.brackets } (offset + bracket.utf8Size)
      obtain ⟨quote, passesLater⟩ := passesLater brackets { openings with quote := quoteInner }
        (offset + byteLength (bracket :: (inner ++ [closer])))
      refine ⟨quote, fun rest => ?_⟩
      rw [List.cons_append, List.append_assoc, List.cons_append, go_opener opens, passesInner,
        go_closer closes]
      have same := passesLater rest
      simp only [byteLength_cons, byteLength_append, byteLength_nil, Nat.add_assoc,
        Nat.add_zero] at same ⊢
      exact same

end checkBalance

/-- Behind a text that leaves brackets open the check stands at these brackets. -/
theorem LeavesOpen.checkBalance (leavesOpen : front.LeavesOpen brackets) :
    ∃ openings, ∀ rest, Text.checkBalance (front ++ rest) =
      checkBalance.go { brackets } openings front.byteLength rest := by
  induction leavesOpen with
  | closed nested =>
      obtain ⟨quote, passes⟩ := checkBalance.go_wellNested nested [] {} 0
      exact ⟨{ quote }, fun rest => by rw [Text.checkBalance, passes, Nat.zero_add]⟩
  | @opened front inner bracket outer _ opens contents inductionHypothesis =>
      obtain ⟨openings, passesFront⟩ := inductionHypothesis
      obtain ⟨quote, passesInner⟩ := checkBalance.go_wellNested contents (bracket :: outer)
        { openings with brackets := front.byteLength :: openings.brackets }
        (front.byteLength + bracket.utf8Size)
      refine ⟨{ quote, brackets := front.byteLength :: openings.brackets }, fun rest => ?_⟩
      rw [List.append_assoc, List.cons_append, passesFront, checkBalance.go_opener opens,
        passesInner, byteLength_append, byteLength_cons, Nat.add_assoc]

/-- The first fault of a text is what the check reports. -/
theorem BreaksWith.checkBalance_eq {fault : SyntaxFault} (breaks : text.BreaksWith fault) :
    text.checkBalance = .error fault := by
  cases breaks with
  | @misclosed front rest brackets closer before closes unfit =>
      obtain ⟨openings, passes⟩ := before.checkBalance
      have rejects : ({ brackets } : Nesting).rejects closer = true := by
        simp [Nesting.rejects, closes, unfit]
      rw [passes, checkBalance.go, if_pos rejects]
  | @unended front inner brackets mark before isMark runsOn =>
      obtain ⟨openings, passes⟩ := before.checkBalance
      obtain ⟨fits, started, _⟩ := after_of_isQuote isMark brackets
      have remembered : openings.after { brackets } front.byteLength mark =
          { openings with quote := front.byteLength } := by
        simp [Openings.after, isMark]
      rw [passes, checkBalance.go_cons fits, started, remembered]
      cases runsOn with
      | body body =>
          have passesBody := checkBalance.go_stringBody body brackets
            { openings with quote := front.byteLength } (front.byteLength + mark.utf8Size) []
          rw [List.append_nil] at passesBody
          rw [passesBody]
          rfl
      | escaping body =>
          rw [checkBalance.go_stringBody body, checkBalance.go_cons rfl]
          rfl
  | @unclosed front inner outer bracket before opens contents =>
      obtain ⟨openings, passes⟩ := before.checkBalance
      obtain ⟨quote, passesInner⟩ := checkBalance.go_wellNested contents (bracket :: outer)
        { openings with brackets := front.byteLength :: openings.brackets }
        (front.byteLength + bracket.utf8Size)
      have atEnd := passesInner []
      rw [List.append_nil] at atEnd
      rw [passes, checkBalance.go_opener opens, atEnd]
      rfl

/-- The check of balance accepts the grammar of balanced texts, and what it reports of another text
is the first fault of the text: a closing bracket that does not close the innermost open one, else a
string without an end, else the innermost bracket that is left open, each where it stands. -/
theorem checkBalance_exact (text : Text) :
    (text.checkBalance = .ok () ↔ text.WellNested) ∧
      ∀ fault, text.checkBalance = .error fault ↔ text.BreaksWith fault := by
  refine ⟨checkBalance_eq_ok_iff.trans isBalanced_iff_wellNested, fun fault => ?_⟩
  refine ⟨fun reported => ?_, BreaksWith.checkBalance_eq⟩
  rcases text.wellNested_or_breaks with nested | ⟨other, breaks⟩
  · have accepted := checkBalance_eq_ok_iff.mpr (isBalanced_iff_wellNested.mpr nested)
    rw [accepted] at reported
    contradiction
  · have same : other = fault := Except.error.inj (breaks.checkBalance_eq.symm.trans reported)
    exact same ▸ breaks

/-- A closing bracket of the wrong kind is reported although a string behind it has no end. -/
example : checkBalance "(\"]\" a] \"b".toList = .error (.unexpected ']' 6) := by
  decide +kernel

end Text

end SchemaMarkup
