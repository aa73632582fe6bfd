import Mathlib.Data.List.Induction
import SchemaMarkup.Proofs.Text.Pieces

/-!
# Strings at the end of texts

A string that ends a text is taken off from the last mark that opens a string at top level, and it
goes on to the end of the text. That is one string if no bracket is open there. If one is, the mark
that ends the text belongs to another string inside of that bracket, and what is taken off is more
than a string. So a text whose front is balanced is balanced if no bracket is left open at its end.
-/

namespace SchemaMarkup

namespace Nesting

variable {nesting : Nesting}

theorem staysInside_concat {text : Text} {last : Char} :
    nesting.StaysInside (text ++ [last]) ↔
      nesting.StaysInside text ∧ (nesting.afterText (text ++ [last])).quoting ≠ .outside := by
  constructor
  · intro stays
    exact ⟨fun front back split => stays front (back ++ [last]) (by rw [split, List.append_assoc]),
      stays _ [] (by simp)⟩
  · rintro ⟨stays, inside⟩ front back split
    rcases List.eq_nil_or_concat' back with rfl | ⟨others, other, rfl⟩
    · rw [List.append_nil] at split
      rwa [← split]
    · rw [← List.append_assoc] at split
      exact stays front others (List.append_inj' split rfl).1

/-- In a string the reader goes on in the string or leaves it, and no bracket opens or closes. -/
theorem after_of_inside {mark : Char} (inside : nesting.quoting.mark? = some mark)
    (character : Char) :
    (nesting.after character).brackets = nesting.brackets ∧
      ((nesting.after character).quoting = .outside ∨
        (nesting.after character).quoting.mark? = some mark) := by
  obtain ⟨quoting, brackets⟩ := nesting
  cases quoting with
  | outside => contradiction
  | escaping other => exact ⟨rfl, .inr inside⟩
  | inside other =>
      simp only [after]
      split
      · exact ⟨rfl, .inr inside⟩
      · split
        · exact ⟨rfl, .inl rfl⟩
        · exact ⟨rfl, .inr inside⟩

/-- Only a backslash in a string escapes what follows. -/
theorem inside_of_after_escaping {character mark : Char}
    (escapes : (nesting.after character).quoting = .escaping mark) :
    character = '\\' ∧ nesting.quoting = .inside mark := by
  obtain ⟨quoting, brackets⟩ := nesting
  cases quoting with
  | outside =>
      simp only [after] at escapes
      repeat' split at escapes
      all_goals contradiction
  | escaping other => contradiction
  | inside other =>
      simp only [after] at escapes
      split at escapes
      · next isBackslash =>
          cases escapes
          exact ⟨eq_of_beq isBackslash, rfl⟩
      · split at escapes
        · contradiction
        · contradiction

/-- Outside of strings the reader enters a string with its mark. -/
theorem after_of_enters {character mark : Char} (outside : nesting.quoting = .outside)
    (enters : (nesting.after character).quoting.mark? = some mark) :
    isQuote mark = true ∧ character = mark ∧
      nesting.after character = { nesting with quoting := .inside mark } := by
  obtain ⟨quoting, brackets⟩ := nesting
  obtain rfl : quoting = .outside := outside
  by_cases quotes : isQuote character = true
  · simp only [after, quotes, if_true] at enters ⊢
    obtain rfl : character = mark := Option.some.inj enters
    exact ⟨quotes, rfl, rfl⟩
  · have staysOutside :
        (({ quoting := .outside, brackets } : Nesting).after character).quoting = .outside := by
      simp only [after, quotes, Bool.false_eq_true, if_false]
      repeat' split
      all_goals rfl
    rw [staysOutside] at enters
    contradiction

/-- A reader that is outside of strings behind a mark was in the string that the mark ends. -/
theorem inside_of_after_mark (outside : (nesting.after '"').quoting = .outside) :
    nesting = { nesting with quoting := .inside '"' } ∧
      (nesting.after '"').brackets = nesting.brackets := by
  obtain ⟨quoting, brackets⟩ := nesting
  cases quoting with
  | outside | escaping mark => contradiction
  | inside mark =>
      by_cases same : '"' = mark
      · subst same
        exact ⟨rfl, rfl⟩
      · have stays : (({ quoting := .inside mark, brackets } : Nesting).after '"').quoting =
            .inside mark := by
          simp [after, same]
        rw [stays] at outside
        contradiction

/-- The string that a reader is in was opened somewhere, and no bracket was opened or closed since
then. -/
theorem exists_opening {text : Text} {mark : Char} (outside : nesting.quoting = .outside)
    (inside : (nesting.afterText text).quoting.mark? = some mark) :
    ∃ front inner, text = front ++ mark :: inner ∧ isQuote mark = true ∧
      nesting.afterText front = { brackets := (nesting.afterText text).brackets } ∧
      ({ quoting := .inside mark, brackets := (nesting.afterText text).brackets } :
        Nesting).StaysInside inner ∧
      ({ quoting := .inside mark, brackets := (nesting.afterText text).brackets } :
        Nesting).afterText inner = nesting.afterText text := by
  induction text using List.reverseRecOn with
  | nil => simp [outside, Quoting.mark?] at inside
  | append_singleton text last inductionHypothesis =>
      rw [afterText_append, afterText_cons, afterText_nil] at inside ⊢
      cases quoting : (nesting.afterText text).quoting.mark? with
      | none =>
          have here : (nesting.afterText text).quoting = .outside := by
            cases isQuoting : (nesting.afterText text).quoting <;> simp_all [Quoting.mark?]
          obtain ⟨isMark, rfl, entered⟩ := after_of_enters here inside
          refine ⟨text, [], rfl, isMark, ?_, fun front back split => ?_, ?_⟩
          · rw [entered, ← here]
          · simp [(List.append_eq_nil_iff.mp split.symm).1]
          · rw [afterText_nil, entered]
      | some other =>
          obtain ⟨sameBrackets, leaves | stays⟩ := after_of_inside quoting last
          · rw [leaves] at inside
            contradiction
          · obtain rfl : other = mark := Option.some.inj (stays.symm.trans inside)
            obtain ⟨front, inner, whole, isMark, opened, staysInside, ends⟩ :=
              inductionHypothesis quoting
            rw [sameBrackets]
            refine ⟨front, inner ++ [last], by simp [whole], isMark, opened, ?_, ?_⟩
            · rw [staysInside_concat, afterText_append, ends]
              refine ⟨staysInside, fun leaves => ?_⟩
              rw [afterText_cons, afterText_nil] at leaves
              rw [leaves] at inside
              contradiction
            · rw [afterText_append, ends, afterText_cons, afterText_nil]

/-- Where a mark ends a string at the end of a text, the text ends with the whole of the string. -/
theorem exists_string_of_ends {text : Text} (start : nesting.quoting = .outside)
    (ends : text.getLast? = some '"') (outside : (nesting.afterText text).quoting = .outside) :
    ∃ front inner, text = front ++ '"' :: (inner ++ ['"']) ∧
      nesting.afterText front = { brackets := (nesting.afterText text).brackets } ∧
      ({ quoting := .inside '"', brackets := (nesting.afterText text).brackets } :
        Nesting).StaysInside inner ∧
      ({ quoting := .inside '"', brackets := (nesting.afterText text).brackets } :
        Nesting).afterText inner =
          { quoting := .inside '"', brackets := (nesting.afterText text).brackets } := by
  obtain ⟨body, rfl⟩ := List.getLast?_eq_some_iff.mp ends
  rw [afterText_append, afterText_cons, afterText_nil] at outside ⊢
  obtain ⟨inside, sameBrackets⟩ := inside_of_after_mark outside
  obtain ⟨front, inner, whole, _, opened, stays, leads⟩ :=
    @exists_opening nesting body '"' start (by rw [inside]; rfl)
  rw [sameBrackets]
  exact ⟨front, inner, by rw [whole]; simp, opened, stays, leads.trans inside⟩

end Nesting

namespace Text

/-! ## The last string at top level -/

/-- No mark of the text opens a string at top level. -/
theorem splitAtLastString.go_eq_none {nesting : Nesting} {text : Text}
    (none : ∀ front back, text = front ++ '"' :: back → (nesting.afterText front).isTop = false) :
    go nesting text = .none := by
  induction text generalizing nesting with
  | nil => rfl
  | cons character rest inductionHypothesis =>
      have later : go (nesting.after character) rest = .none :=
        inductionHypothesis fun front back split =>
          none (character :: front) back (by rw [split, List.cons_append])
      have here : (nesting.isTop && character == '"') = false := by
        rw [Bool.and_eq_false_iff, beq_eq_false_iff_ne]
        by_cases isMark : character = '"'
        · exact .inl (none [] rest (by rw [isMark]; rfl))
        · exact .inr isMark
      rw [go, later, here]
      rfl

/-- The last mark that opens a string at top level is found. -/
theorem splitAtLastString.go_append {nesting : Nesting} {front string : Text}
    (atTop : (nesting.afterText front).isTop = true)
    (last : go ((nesting.afterText front).after '"') string = none) :
    go nesting (front ++ '"' :: string) = some (front, '"' :: string) := by
  induction front generalizing nesting with
  | nil =>
      have here : (nesting.isTop && '"' == '"') = true := by
        rw [show nesting.isTop = true from atTop]
        rfl
      rw [List.nil_append, go, show go (nesting.after '"') string = none from last, here]
      rfl
  | cons character rest inductionHypothesis =>
      rw [List.cons_append, go, inductionHypothesis atTop last]

/-- The string that ends a text is the last one. -/
theorem splitAtLastString_of_string {front inner : Text}
    (atTop : ({} : Nesting).afterText front = {})
    (stays : ({ quoting := .inside '"' } : Nesting).StaysInside inner) :
    splitAtLastString (front ++ '"' :: (inner ++ ['"'])) =
      some (front, '"' :: (inner ++ ['"'])) := by
  refine splitAtLastString.go_append (by rw [atTop]; rfl) ?_
  refine splitAtLastString.go_eq_none fun before back split => ?_
  -- Behind the mark the reader is in the string wherever a mark can stand.
  have within : ∃ gap, inner = before ++ gap := by
    rcases List.eq_nil_or_concat' back with rfl | ⟨others, other, rfl⟩
    · exact ⟨[], by rw [(List.append_inj' split rfl).1, List.append_nil]⟩
    · rw [← List.cons_append, ← List.append_assoc] at split
      exact ⟨_, (List.append_inj' split rfl).1⟩
  obtain ⟨gap, rfl⟩ := within
  have inside := stays before gap rfl
  rw [atTop]
  refine Bool.eq_false_iff.mpr fun isTop => inside ?_
  rw [Nesting.isTop_iff] at isTop
  exact congrArg Nesting.quoting isTop

/-! ## Taking strings off -/

/-- A text that does not end with a mark is left as it is. -/
theorem takeTrailingQuoted_of_unmarked {text : Text} (ends : text.trimEnd.getLast? ≠ some '"') :
    text.takeTrailingQuoted = (text, none) := by
  rw [takeTrailingQuoted]
  split
  · rw [if_neg (by simp [ends])]
  · rfl

/-- A string at the end of a text is taken off. -/
theorem takeTrailingQuoted_of_string {front inner blanks : Text}
    (atTop : ({} : Nesting).afterText front = {})
    (stays : ({ quoting := .inside '"' } : Nesting).StaysInside inner)
    (leads : ({ quoting := .inside '"' } : Nesting).afterText inner = { quoting := .inside '"' })
    (blank : ∀ character ∈ blanks, isBlank character = true) :
    takeTrailingQuoted (front ++ '"' :: (inner ++ '"' :: blanks)) =
      (front, some (String.ofList (unescapeQuotes inner))) := by
  have regrouped : front ++ '"' :: (inner ++ '"' :: blanks) =
      (front ++ '"' :: inner ++ ['"']) ++ blanks := by
    simp
  have trimmed : trimEnd (front ++ '"' :: (inner ++ '"' :: blanks)) =
      front ++ '"' :: (inner ++ ['"']) := by
    rw [regrouped, trimEnd_append_blank _ blank, trimEnd_concat _ (by decide), List.append_assoc,
      List.cons_append]
  have outside : (({} : Nesting).afterText (front ++ '"' :: (inner ++ ['"']))).quoting =
      .outside := by
    rw [Nesting.afterText_append, atTop, Nesting.afterText_cons,
      show ({} : Nesting).after '"' = { quoting := .inside '"' } from rfl,
      Nesting.afterText_append, leads]
    rfl
  have ends : (front ++ '"' :: (inner ++ ['"'])).getLast? = some '"' := by
    simp [List.getLast?_cons]
  simp only [takeTrailingQuoted, trimmed, splitAtLastString_of_string atTop stays, ends, outside]
  simp

/-- A string is taken off where the last string starts, and if no string is open at the end. -/
theorem takeTrailingQuoted_eq_some {text : Text} {contents : String}
    (taken : text.takeTrailingQuoted.2 = some contents) :
    ∃ before rest, text.trimEnd.splitAtLastString = some (before, rest) ∧
      text.takeTrailingQuoted.1 = before ∧ text.trimEnd.getLast? = some '"' ∧
      (({} : Nesting).afterText text.trimEnd).quoting = .outside := by
  simp only [takeTrailingQuoted] at taken ⊢
  split at taken
  · next before mark string found =>
      split at taken
      · next isTaken =>
          simp only [isTaken, if_true]
          simp only [Bool.and_eq_true, beq_iff_eq] at isTaken
          exact ⟨before, _, found, rfl, isTaken.1.1, isTaken.1.2⟩
      · contradiction
  · contradiction

/-- A text without a string at its end is left as it is. -/
theorem takeTrailingQuoted_of_none {text : Text} (noString : text.takeTrailingQuoted.2 = none) :
    text.takeTrailingQuoted.1 = text := by
  simp only [takeTrailingQuoted] at noString ⊢
  split at noString
  · split at noString
    · contradiction
    · next before mark string found taken => simp only [taken, Bool.false_eq_true, if_false]
  · rfl

/-- A text that is balanced without the string at its end is balanced if it leaves no bracket open.
It leaves no string open in any case. -/
theorem isBalanced_iff_of_takeTrailingQuoted {text : Text}
    (balanced : text.takeTrailingQuoted.1.isBalanced = true) :
    (text.isBalanced = true ↔ (({} : Nesting).afterText text).brackets = []) ∧
      (({} : Nesting).afterText text).quoting = .outside := by
  have closed_of_balanced : text.isBalanced = true →
      (({} : Nesting).afterText text).brackets = [] :=
    fun whole => by rw [(isBalanced_iff.mp whole).2]
  cases string : text.takeTrailingQuoted.2 with
  | none =>
      rw [takeTrailingQuoted_of_none string] at balanced
      exact ⟨iff_of_true balanced (closed_of_balanced balanced), by
        rw [(isBalanced_iff.mp balanced).2]⟩
  | some contents =>
      obtain ⟨blanks, whole, blank⟩ := exists_trimEnd_append text
      obtain ⟨before, rest, found, same, ends, outside⟩ := takeTrailingQuoted_eq_some string
      have plain : ∀ character ∈ blanks, isPlain character = true :=
        fun character listed => isPlain_of_isBlank (blank character listed)
      have sameEnd : ({} : Nesting).afterText text = ({} : Nesting).afterText text.trimEnd := by
        rw [whole, Nesting.afterText_append, (reads_of_plain outside plain).2, ← whole]
      refine ⟨⟨closed_of_balanced, fun closed => ?_⟩, by rw [sameEnd, outside]⟩
      -- With no bracket open, the string that ends the text is at top level, so it is the last
      -- string there and nothing but it was taken off.
      obtain ⟨front, inner, isString, opened, stays, leads⟩ :=
        Nesting.exists_string_of_ends rfl ends outside
      rw [← sameEnd, closed] at opened stays leads
      rw [isString, splitAtLastString_of_string opened stays] at found
      obtain ⟨rfl, _⟩ := Prod.mk.inj (Option.some.inj found)
      rw [same, isBalanced_iff] at balanced
      have sealed : Seals (fun _ => false) ('"' :: (inner ++ ['"'])) := .string rfl rfl stays leads
      rw [isBalanced_iff, whole, isString, List.append_assoc, Nesting.readsToEnd_append, balanced.2,
        Nesting.readsToEnd_append, sealed.reads.2]
      exact ⟨balanced.1, sealed.reads.1, readsToEnd_of_blank blank⟩

end Text

end SchemaMarkup
