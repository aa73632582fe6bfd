import SchemaMarkup.Proofs.Text.BracketSearch
import SchemaMarkup.Proofs.Text.TrailingStrings

/-!
# The grammar of balanced texts

`Text.WellNested` is the grammar that says which texts are balanced: strings, groups and plain
characters in any order, where the contents of a group are such a text again. Every text stands at
its end in one of three ways (`Text.leavesOpen_or_breaks`). It is well nested but for brackets that
it leaves open, or it is in a string, or it holds a closing bracket that does not belong there. The
reader that checks balance is at these positions, and so a text is balanced if it is well nested
(`Text.isBalanced_iff_wellNested`).
-/

namespace SchemaMarkup

namespace Text

/-! ## Strings, groups and open brackets -/

/-- What stands between the marks of a string. A backslash takes the next character with it, and
only behind one can the mark itself be held. -/
inductive StringBody (mark : Char) : Text → Prop where
  | nil : StringBody mark []
  | escaped {character : Char} {rest : Text} (body : StringBody mark rest) :
      StringBody mark ('\\' :: character :: rest)
  | plain {character : Char} {rest : Text} (noMark : character ≠ mark)
      (noBackslash : character ≠ '\\') (body : StringBody mark rest) :
      StringBody mark (character :: rest)

/-- Nothing in the text ends a string of the mark. It may break off behind a backslash. -/
inductive RunsOn (mark : Char) : Text → Prop where
  | body {inner : Text} (body : StringBody mark inner) : RunsOn mark inner
  | escaping {inner : Text} (body : StringBody mark inner) : RunsOn mark (inner ++ ['\\'])

/-- The text is made of strings, groups of well-nested text, and characters that are neither quotes
nor brackets. -/
inductive WellNested : Text → Prop where
  | nil : WellNested []
  | plain {character : Char} {rest : Text} (isPlain : isPlain character = true)
      (later : WellNested rest) : WellNested (character :: rest)
  | string {mark : Char} {inner rest : Text} (isMark : isQuote mark = true)
      (body : StringBody mark inner) (later : WellNested rest) :
      WellNested (mark :: (inner ++ mark :: rest))
  | group {bracket closer : Char} {inner rest : Text} (closes : closerOf? bracket = some closer)
      (contents : WellNested inner) (later : WellNested rest) :
      WellNested (bracket :: (inner ++ closer :: rest))

/-- The text is well nested but for the brackets that it leaves open, the innermost first. -/
inductive LeavesOpen : Text → List Char → Prop where
  | closed {text : Text} (nested : WellNested text) : LeavesOpen text []
  | opened {front inner : Text} {bracket : Char} {outer : List Char}
      (before : LeavesOpen front outer) (opens : isOpener bracket = true)
      (contents : WellNested inner) : LeavesOpen (front ++ bracket :: inner) (bracket :: outer)

/-- The first fault of a text that is not well nested. A closing bracket that does not close the
innermost open one comes first; what stands in front of it has no such bracket and ends outside of
strings. A string without an end comes next, and then the innermost bracket that is left open. -/
inductive BreaksWith : Text → SyntaxFault → Prop where
  | misclosed {front rest : Text} {brackets : List Char} {closer : Char}
      (before : LeavesOpen front brackets) (closes : isCloser closer = true)
      (unfit : brackets.head?.bind closerOf? ≠ some closer) :
      BreaksWith (front ++ closer :: rest) (.unexpected closer front.byteLength)
  | unended {front inner : Text} {brackets : List Char} {mark : Char}
      (before : LeavesOpen front brackets) (isMark : isQuote mark = true)
      (runsOn : RunsOn mark inner) :
      BreaksWith (front ++ mark :: inner) (.unterminatedQuote mark front.byteLength)
  | unclosed {front inner : Text} {outer : List Char} {bracket : Char}
      (before : LeavesOpen front outer) (opens : isOpener bracket = true)
      (contents : WellNested inner) :
      BreaksWith (front ++ bracket :: inner) (.unclosed bracket front.byteLength)

/-- The text breaks off inside of a string. -/
def EndsInString (text : Text) : Prop :=
  ∃ mark offset, text.BreaksWith (.unterminatedQuote mark offset)

/-- The text holds a closing bracket that does not close the innermost open one. -/
def IsMisclosed (text : Text) : Prop :=
  ∃ closer offset, text.BreaksWith (.unexpected closer offset)

/-! ## Texts put together -/

variable {text inner front rest : Text} {mark character : Char} {brackets : List Char}

theorem StringBody.append {later : Text} (body : StringBody mark inner)
    (bodyLater : StringBody mark later) : StringBody mark (inner ++ later) := by
  induction body with
  | nil => exact bodyLater
  | escaped _ inductionHypothesis => exact .escaped inductionHypothesis
  | plain noMark noBackslash _ inductionHypothesis =>
      exact .plain noMark noBackslash inductionHypothesis

/-- One character more ends the string, or the string goes on. -/
theorem RunsOn.concat (runsOn : RunsOn mark inner) (character : Char) :
    RunsOn mark (inner ++ [character]) ∨ StringBody mark inner ∧ character = mark := by
  cases runsOn with
  | body body =>
      by_cases isBackslash : character = '\\'
      · exact .inl (isBackslash ▸ .escaping body)
      · by_cases isMark : character = mark
        · exact .inr ⟨body, isMark⟩
        · exact .inl (.body (body.append (.plain isMark isBackslash .nil)))
  | @escaping before body =>
      have escaped : StringBody mark (before ++ ['\\', character]) := body.append (.escaped .nil)
      exact .inl (.body (by rwa [List.append_assoc]))

theorem WellNested.append {later : Text} (nested : WellNested text)
    (nestedLater : WellNested later) : WellNested (text ++ later) := by
  induction nested with
  | nil => exact nestedLater
  | plain isPlain _ inductionHypothesis => exact .plain isPlain inductionHypothesis
  | string isMark body _ inductionHypothesis =>
      rw [List.cons_append, List.append_assoc]
      exact .string isMark body inductionHypothesis
  | group closes contents _ _ inductionHypothesis =>
      rw [List.cons_append, List.append_assoc]
      exact .group closes contents inductionHypothesis

theorem LeavesOpen.append_nested {later : Text} (leavesOpen : LeavesOpen text brackets)
    (nested : WellNested later) : LeavesOpen (text ++ later) brackets := by
  cases leavesOpen with
  | closed nestedText => exact .closed (nestedText.append nested)
  | opened before opens contents =>
      rw [List.append_assoc, List.cons_append]
      exact .opened before opens (contents.append nested)

/-- What a text leaves open is around what a later text leaves open. -/
theorem LeavesOpen.append {later : Text} {laterBrackets : List Char}
    (leavesOpen : LeavesOpen text brackets) (leavesLater : LeavesOpen later laterBrackets) :
    LeavesOpen (text ++ later) (laterBrackets ++ brackets) := by
  induction leavesLater with
  | closed nested => exact leavesOpen.append_nested nested
  | opened _ opens contents inductionHypothesis =>
      rw [← List.append_assoc]
      exact .opened inductionHypothesis opens contents

/-- The closing bracket of the innermost open one makes a group. -/
theorem LeavesOpen.close {bracket closer : Char} {outer : List Char}
    (leavesOpen : LeavesOpen text (bracket :: outer)) (closes : closerOf? bracket = some closer) :
    LeavesOpen (text ++ [closer]) outer := by
  cases leavesOpen with
  | opened before opens contents =>
      rw [List.append_assoc, List.cons_append]
      exact before.append_nested (.group closes contents .nil)

/-! ## The end of a text -/

theorem IsMisclosed.append (misclosed : text.IsMisclosed) (later : Text) :
    IsMisclosed (text ++ later) := by
  obtain ⟨closer, offset, breaks⟩ := misclosed
  cases breaks with
  | misclosed before closes unfit =>
      rw [List.append_assoc, List.cons_append]
      exact ⟨closer, _, .misclosed before closes unfit⟩

/-- The mark of a string ends it and leads back to the brackets that are open around it. -/
theorem EndsInString.concat (endsInString : text.EndsInString) (character : Char) :
    (∃ brackets, LeavesOpen (text ++ [character]) brackets) ∨
      EndsInString (text ++ [character]) := by
  obtain ⟨mark, offset, breaks⟩ := endsInString
  cases breaks with
  | unended before isMark runsOn =>
      rw [List.append_assoc, List.cons_append]
      rcases runsOn.concat character with runsOnLater | ⟨body, rfl⟩
      · exact .inr ⟨_, _, .unended before isMark runsOnLater⟩
      · exact .inl ⟨_, before.append_nested (.string isMark body .nil)⟩

/-- Outside of strings a closing bracket has to fit, and everything else may follow. -/
theorem LeavesOpen.concat (leavesOpen : LeavesOpen text brackets) (character : Char) :
    (∃ brackets, LeavesOpen (text ++ [character]) brackets) ∨
      EndsInString (text ++ [character]) ∨ IsMisclosed (text ++ [character]) := by
  by_cases quotes : isQuote character = true
  · exact .inr (.inl ⟨_, _, .unended leavesOpen quotes (.body .nil)⟩)
  · by_cases opens : isOpener character = true
    · exact .inl ⟨_, .opened leavesOpen opens .nil⟩
    · by_cases closes : isCloser character = true
      · by_cases fits : brackets.head?.bind closerOf? = some character
        · obtain ⟨bracket, isInnermost, closesBracket⟩ := Option.bind_eq_some_iff.mp fits
          obtain ⟨outer, rfl⟩ := List.head?_eq_some_iff.mp isInnermost
          exact .inl ⟨outer, leavesOpen.close closesBracket⟩
        · exact .inr (.inr ⟨_, _, .misclosed leavesOpen closes fits⟩)
      · have plain : isPlain character = true := by simp [isPlain, quotes, opens, closes]
        exact .inl ⟨brackets, leavesOpen.append_nested (.plain plain .nil)⟩

/-- A text leaves brackets open, or it is in a string at its end, or it is misclosed. -/
theorem leavesOpen_or_breaks (text : Text) :
    (∃ brackets, text.LeavesOpen brackets) ∨ text.EndsInString ∨ text.IsMisclosed := by
  -- The way in which a text stands at its end decides what one character more may be.
  induction text using List.reverseRecOn with
  | nil => exact .inl ⟨[], .closed .nil⟩
  | append_singleton text character inductionHypothesis =>
      rcases inductionHypothesis with ⟨brackets, leavesOpen⟩ | endsInString | misclosed
      · exact leavesOpen.concat character
      · exact (endsInString.concat character).imp_right .inl
      · exact .inr (.inr (misclosed.append [character]))

/-- A text that is not well nested has a first fault. -/
theorem wellNested_or_breaks (text : Text) :
    text.WellNested ∨ ∃ fault, text.BreaksWith fault := by
  rcases text.leavesOpen_or_breaks with ⟨brackets, leavesOpen⟩ | ⟨_, _, breaks⟩ | ⟨_, _, breaks⟩
  · cases leavesOpen with
    | closed nested => exact .inl nested
    | opened before opens contents => exact .inr ⟨_, .unclosed before opens contents⟩
  · exact .inr ⟨_, breaks⟩
  · exact .inr ⟨_, breaks⟩

/-! ## The reader in a string -/

/-- In a string only the mark and the backslash are more than contents. -/
theorem after_of_contents (noMark : character ≠ mark) (noBackslash : character ≠ '\\') :
    ({ quoting := .inside mark, brackets } : Nesting).after character =
      { quoting := .inside mark, brackets } := by
  simp [Nesting.after, noMark, noBackslash]

/-- Through the body of a string the reader stays in the string. -/
theorem StringBody.stays (body : StringBody mark inner) (brackets : List Char) :
    ({ quoting := .inside mark, brackets } : Nesting).StaysInside inner ∧
      ({ quoting := .inside mark, brackets } : Nesting).afterText inner =
        { quoting := .inside mark, brackets } := by
  induction body with
  | nil => exact ⟨fun front back split => by simp [(List.append_eq_nil_iff.mp split.symm).1], rfl⟩
  | escaped _ inductionHypothesis =>
      rw [Nesting.staysInside_cons, Nesting.staysInside_cons]
      exact ⟨⟨by simp, by simp [Nesting.after], inductionHypothesis.1⟩, inductionHypothesis.2⟩
  | plain noMark noBackslash _ inductionHypothesis =>
      rw [Nesting.staysInside_cons, Nesting.afterText_cons, after_of_contents noMark noBackslash]
      exact ⟨⟨by simp, inductionHypothesis.1⟩, inductionHypothesis.2⟩

/-- What the reader passes without leaving the string is a body of the string. Behind a backslash
it is one together with the backslash. -/
theorem stringBody_of_stays (inner : Text) :
    (({ quoting := .inside mark, brackets } : Nesting).StaysInside inner →
      ({ quoting := .inside mark, brackets } : Nesting).afterText inner =
        { quoting := .inside mark, brackets } → StringBody mark inner) ∧
    (({ quoting := .escaping mark, brackets } : Nesting).StaysInside inner →
      ({ quoting := .escaping mark, brackets } : Nesting).afterText inner =
        { quoting := .inside mark, brackets } → StringBody mark ('\\' :: inner)) := by
  induction inner with
  | nil => exact ⟨fun _ _ => .nil, fun _ leads => by simp at leads⟩
  | cons character rest inductionHypothesis =>
      obtain ⟨fromInside, fromEscaping⟩ := inductionHypothesis
      refine ⟨fun stays leads => ?_, fun stays leads => ?_⟩
      · obtain ⟨_, staysLater⟩ := Nesting.staysInside_cons.mp stays
        rw [Nesting.afterText_cons] at leads
        by_cases isBackslash : character = '\\'
        · subst isBackslash
          exact fromEscaping staysLater leads
        · by_cases isMark : character = mark
          · subst isMark
            refine absurd ?_ (staysLater [] rest rfl)
            simp [Nesting.after, isBackslash]
          · rw [after_of_contents isMark isBackslash] at staysLater leads
            exact .plain isMark isBackslash (fromInside staysLater leads)
      · exact .escaped (fromInside (Nesting.staysInside_cons.mp stays).2 leads)

/-- A string without an end keeps the reader inside. -/
theorem RunsOn.stays (runsOn : RunsOn mark inner) (brackets : List Char) :
    ({ quoting := .inside mark, brackets } : Nesting).StaysInside inner := by
  cases runsOn with
  | body body => exact (body.stays brackets).1
  | escaping body =>
      obtain ⟨stays, leads⟩ := body.stays brackets
      rw [Nesting.staysInside_concat, Nesting.afterText_append, leads]
      exact ⟨stays, by simp [Nesting.after]⟩

/-! ## The reader outside of strings -/

theorem WellNested.reads (nested : text.WellNested) : ({} : Nesting).ReadsToEnd text := by
  have sealed : Seals (fun _ => false) text := by
    induction nested with
    | nil => exact .nil
    | plain isPlain _ inductionHypothesis => exact .cons isPlain rfl inductionHypothesis
    | string isMark body _ inductionHypothesis =>
        obtain ⟨stays, leads⟩ := body.stays []
        have string : Seals (fun _ => false) _ := .string isMark rfl stays leads
        simpa using string.append inductionHypothesis
    | group closes _ _ sealedInner inductionHypothesis =>
        have group : Seals (fun _ => false) _ := .group closes rfl sealedInner.isBalanced
        simpa using group.append inductionHypothesis
  exact sealed.reads

/-- An opening bracket is open behind it. -/
theorem after_of_isOpener {bracket : Char} (opens : isOpener bracket = true) (outer : List Char) :
    ({ brackets := outer } : Nesting).rejects bracket = false ∧
      ({ brackets := outer } : Nesting).after bracket = { brackets := bracket :: outer } := by
  obtain ⟨closer, closes⟩ := Option.isSome_iff_exists.mp opens
  rcases closerOf?_cases closes with ⟨rfl, _⟩ | ⟨rfl, _⟩ | ⟨rfl, _⟩ <;> exact ⟨rfl, rfl⟩

/-- A mark starts a string outside of strings, and ends the one that it started. -/
theorem after_of_isQuote (isMark : isQuote mark = true) (outer : List Char) :
    ({ brackets := outer } : Nesting).rejects mark = false ∧
      ({ brackets := outer } : Nesting).after mark =
        { quoting := .inside mark, brackets := outer } ∧
      ({ quoting := .inside mark, brackets := outer } : Nesting).after mark =
        { brackets := outer } := by
  have isSign : mark = '"' ∨ mark = '`' := by simpa [isQuote] using isMark
  rcases isSign with rfl | rfl <;> exact ⟨rfl, rfl, rfl⟩

theorem LeavesOpen.reads (leavesOpen : text.LeavesOpen brackets) :
    ({} : Nesting).accepts text = true ∧
      ({} : Nesting).afterText text = { brackets := brackets } := by
  induction leavesOpen with
  | closed nested => exact nested.reads
  | @opened front inner bracket outer _ opens contents inductionHypothesis =>
      obtain ⟨accepted, leads⟩ := inductionHypothesis
      obtain ⟨fits, opened⟩ := after_of_isOpener opens outer
      obtain ⟨acceptedInner, leadsInner⟩ :=
        Nesting.afterText_under contents.reads.1 (bracket :: outer)
      rw [contents.reads.2] at leadsInner
      rw [Nesting.accepts_append, Nesting.afterText_append, accepted, leads, Nesting.accepts_cons,
        Nesting.afterText_cons, fits, opened]
      exact ⟨acceptedInner, leadsInner⟩

theorem EndsInString.reads (endsInString : text.EndsInString) :
    ({} : Nesting).accepts text = true ∧ (({} : Nesting).afterText text).quoting ≠ .outside := by
  obtain ⟨mark, offset, breaks⟩ := endsInString
  cases breaks with
  | @unended front inner brackets _ before isMark runsOn =>
      obtain ⟨accepted, leads⟩ := before.reads
      obtain ⟨fits, started, _⟩ := after_of_isQuote isMark brackets
      have stays := runsOn.stays brackets
      rw [Nesting.accepts_append, Nesting.afterText_append, accepted, leads, Nesting.accepts_cons,
        Nesting.afterText_cons, fits, started]
      exact ⟨(@Nesting.StaysInside.hides _ isPlain _ stays).1, stays inner [] (by simp)⟩

theorem IsMisclosed.reads (misclosed : text.IsMisclosed) :
    ({} : Nesting).accepts text = false := by
  obtain ⟨closer, offset, breaks⟩ := misclosed
  cases breaks with
  | misclosed before closes unfit =>
      rw [Nesting.accepts_append, before.reads.2, Nesting.accepts_cons]
      simp [Nesting.rejects, closes, unfit]

/-- A text in which every closing bracket fits leaves brackets open or is in a string at its end. -/
theorem leavesOpen_or_endsInString (accepted : ({} : Nesting).accepts text = true) :
    (∃ brackets, text.LeavesOpen brackets) ∨ text.EndsInString := by
  rcases text.leavesOpen_or_breaks with leavesOpen | endsInString | misclosed
  · exact .inl leavesOpen
  · exact .inr endsInString
  · rw [misclosed.reads] at accepted
    contradiction

/-- The brackets that a text leaves open are those that the reader holds. -/
theorem leavesOpen_iff :
    text.LeavesOpen brackets ↔ ({} : Nesting).accepts text = true ∧
      ({} : Nesting).afterText text = { brackets := brackets } := by
  refine ⟨LeavesOpen.reads, fun ⟨accepted, leads⟩ => ?_⟩
  rcases leavesOpen_or_endsInString accepted with ⟨others, leavesOpen⟩ | endsInString
  · have same := leavesOpen.reads.2.symm.trans leads
    rwa [(Nesting.mk.inj same).2] at leavesOpen
  · exact absurd (congrArg Nesting.quoting leads) endsInString.reads.2

/-- A text ends in a string if the reader does. -/
theorem endsInString_iff :
    text.EndsInString ↔ ({} : Nesting).accepts text = true ∧
      (({} : Nesting).afterText text).quoting ≠ .outside := by
  refine ⟨EndsInString.reads, fun ⟨accepted, inside⟩ => ?_⟩
  rcases leavesOpen_or_endsInString accepted with ⟨brackets, leavesOpen⟩ | endsInString
  · exact absurd (congrArg Nesting.quoting leavesOpen.reads.2) inside
  · exact endsInString

instance (text : Text) : Decidable text.EndsInString :=
  decidable_of_iff _ endsInString_iff.symm

theorem leavesOpen_nil_iff : text.LeavesOpen [] ↔ text.WellNested := by
  refine ⟨fun leavesOpen => ?_, .closed⟩
  cases leavesOpen with
  | closed nested => exact nested

/-- The balanced texts are those of the grammar. -/
theorem isBalanced_iff_wellNested : text.isBalanced = true ↔ text.WellNested :=
  isBalanced_iff.trans (leavesOpen_iff.symm.trans leavesOpen_nil_iff)

instance (text : Text) : Decidable text.WellNested :=
  decidable_of_iff _ isBalanced_iff_wellNested

example : WellNested "[Column(TypeName = \"money)\")]".toList := by
  decide +kernel

end Text

end SchemaMarkup
