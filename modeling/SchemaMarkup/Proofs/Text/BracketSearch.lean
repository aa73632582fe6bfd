import SchemaMarkup.Grammar.Annotation
import SchemaMarkup.Proofs.Text.Balance

/-!
# The search for opening brackets

The search for the opening bracket of a group has a notion of top level of its own, in which a
string ends at the next mark of its kind even behind a backslash, and square brackets are no
brackets (`PlainReading`). So it may take another bracket for the first at top level than the one
that is (`Text.SeesBrackets`). The two notions agree as long as no string holds its own mark behind
a backslash: up to the first square bracket at top level both readers are then in the same string,
and the outermost open bracket is one that both of them count (`PlainReading.InStep`).
-/

namespace SchemaMarkup

/-- Where a reader stands that knows neither escapes nor square brackets. -/
structure PlainReading where
  /-- The mark of the string that the reader is in. -/
  string : Option Char := none
  /-- How many parentheses and braces are open. -/
  depth : Nat := 0

namespace PlainReading

/-- The reader's position after one more character. -/
def after (reading : PlainReading) (character : Char) : PlainReading where
  string := Text.plainStringAfter reading.string character
  depth := Text.groupDepthAfter reading.string reading.depth character

/-- The reader's position after a whole text. -/
def afterText (reading : PlainReading) (text : Text) : PlainReading :=
  text.foldl after reading

@[simp] theorem afterText_nil (reading : PlainReading) : reading.afterText [] = reading := rfl

@[simp] theorem afterText_cons (reading : PlainReading) (character : Char) (text : Text) :
    reading.afterText (character :: text) = (reading.after character).afterText text := rfl

end PlainReading

namespace Text

/-! ## Opening brackets -/

/-- No square bracket of the text stands behind a front of a kind. -/
def OpensNone (stands : Text → Prop) (text : Text) : Prop :=
  ∀ front back, text = front ++ '[' :: back → ¬stands front

theorem opensNone_cons {stands : Text → Prop} {character : Char} {rest : Text} :
    OpensNone stands (character :: rest) ↔
      (character = '[' → ¬stands []) ∧
        OpensNone (fun front => stands (character :: front)) rest := by
  constructor
  · intro none
    refine ⟨fun opens => none [] rest (by rw [opens]; rfl), fun front back split => ?_⟩
    exact none (character :: front) back (by rw [split]; rfl)
  · rintro ⟨here, later⟩ front back split
    cases front with
    | nil => exact here (List.cons.inj split).1
    | cons first front =>
        obtain ⟨rfl, behind⟩ := List.cons.inj split
        exact later front back behind

/-- A text opens no group, or it has a first group. -/
theorem opensNone_or_first (stands : Text → Prop) (text : Text) :
    OpensNone stands text ∨ ∃ before following, text = before ++ '[' :: following ∧
      stands before ∧ OpensNone stands before := by
  induction text generalizing stands with
  | nil => exact .inl fun front back split => by simp at split
  | cons character rest inductionHypothesis =>
      by_cases opens : character = '[' ∧ stands []
      · refine .inr ⟨[], rest, by rw [opens.1]; rfl, opens.2, ?_⟩
        exact fun front back split => by simp at split
      · have here : character = '[' → ¬stands [] := fun isBracket atTop => opens ⟨isBracket, atTop⟩
        rcases inductionHypothesis fun front => stands (character :: front) with
          none | ⟨before, following, rfl, atTop, none⟩
        · exact .inl (opensNone_cons.mpr ⟨here, none⟩)
        · exact .inr ⟨character :: before, following, rfl, atTop, opensNone_cons.mpr ⟨here, none⟩⟩

/-- Two ways to split a text at a sign split it at the same place, or one of them before the
other. -/
theorem append_cons_cases {mark sign : Char} {before other following behind : Text}
    (same : before ++ mark :: following = other ++ sign :: behind) :
    (before = other ∧ following = behind) ∨ (∃ gap, other = before ++ mark :: gap) ∨
      ∃ gap, before = other ++ sign :: gap := by
  rcases List.append_eq_append_iff.mp same with ⟨gap, rfl, split⟩ | ⟨gap, rfl, split⟩
  · cases gap with
    | nil => exact .inl ⟨(List.append_nil before).symm, (List.cons.inj split).2⟩
    | cons first gap => exact .inr (.inl ⟨gap, by rw [(List.cons.inj split).1]⟩)
  · cases gap with
    | nil => exact .inl ⟨List.append_nil other, (List.cons.inj split).2.symm⟩
    | cons first gap => exact .inr (.inr ⟨gap, by rw [(List.cons.inj split).1]⟩)

/-- The first group of a text is the only one that is first. -/
theorem first_unique {stands : Text → Prop} {before other following behind : Text}
    (same : before ++ '[' :: following = other ++ '[' :: behind) (atTop : stands before)
    (none : OpensNone stands before) (atTopToo : stands other) (noneToo : OpensNone stands other) :
    before = other ∧ following = behind := by
  rcases append_cons_cases same with here | ⟨gap, rfl⟩ | ⟨gap, rfl⟩
  · exact here
  · exact absurd atTop (noneToo before gap rfl)
  · exact absurd atTopToo (none other gap rfl)

/-! ## The search for opening brackets -/

/-- Whether a bracket opens a group for the search, told by the reading of what stands in front. -/
theorem opens_iff {reading : PlainReading} {character : Char} :
    (character == '[' && reading.string.isNone && reading.depth == 0) = true ↔
      character = '[' ∧ reading = {} := by
  obtain ⟨string, depth⟩ := reading
  simp [and_assoc]

theorem splitAtBracket.go_eq_none_iff {reading : PlainReading} {text : Text} :
    go reading.string reading.depth text = none ↔
      OpensNone (fun front => reading.afterText front = {}) text := by
  induction text generalizing reading with
  | nil => exact ⟨fun _ front back split => by simp at split, fun _ => rfl⟩
  | cons character rest inductionHypothesis =>
      rw [opensNone_cons, go]
      by_cases opens : character = '[' ∧ reading = {}
      · rw [if_pos (opens_iff.mpr opens)]
        exact ⟨fun isNone => absurd isNone (Option.some_ne_none _), fun none =>
          absurd opens.2 (none.1 opens.1)⟩
      · rw [if_neg (fun found => opens (opens_iff.mp found)), Option.map_eq_none_iff]
        refine (@inductionHypothesis (reading.after character)).trans ?_
        exact (and_iff_right fun isBracket atTop => opens ⟨isBracket, atTop⟩).symm

theorem splitAtBracket.first_of_go {reading : PlainReading} {text before following : Text}
    (found : go reading.string reading.depth text = some (before, following)) :
    reading.afterText before = {} ∧
      OpensNone (fun front => reading.afterText front = {}) before := by
  induction text generalizing reading before with
  | nil => contradiction
  | cons character rest inductionHypothesis =>
      rw [go] at found
      split at found
      · next opens =>
          cases found
          exact ⟨(opens_iff.mp opens).2, fun front back split => by simp at split⟩
      · next goesOn =>
          obtain ⟨⟨inner, _⟩, later, same⟩ := Option.map_eq_some_iff.mp found
          cases same
          obtain ⟨atTop, none⟩ := @inductionHypothesis (reading.after character) inner later
          refine ⟨atTop, opensNone_cons.mpr ⟨fun isBracket isTop => ?_, none⟩⟩
          exact goesOn (opens_iff.mpr ⟨isBracket, isTop⟩)

/-- The search for an opening bracket finds the first one at top level, as it sees it. -/
theorem splitAtBracket_eq_some_iff {text before following : Text} :
    text.splitAtBracket = some (before, following) ↔
      text = before ++ '[' :: following ∧ ({} : PlainReading).afterText before = {} ∧
        OpensNone (fun front => ({} : PlainReading).afterText front = {}) before := by
  have first : ∀ {before following}, text.splitAtBracket = some (before, following) →
      ({} : PlainReading).afterText before = {} ∧
        OpensNone (fun front => ({} : PlainReading).afterText front = {}) before :=
    fun found => @splitAtBracket.first_of_go {} text _ _ found
  constructor
  · exact fun found => ⟨(splitAtBracket_append found).symm, first found⟩
  · rintro ⟨whole, atTop, none⟩
    cases found : text.splitAtBracket with
    | none =>
        have noneThere := (@splitAtBracket.go_eq_none_iff {} text).mp found
        exact absurd atTop (noneThere before following whole)
    | some cut =>
        obtain ⟨other, behind⟩ := cut
        have same := (splitAtBracket_append found).trans whole
        obtain ⟨rfl, rfl⟩ := first_unique same (first found).1 (first found).2 atTop none
        rfl

theorem splitAtBracket_eq_none_iff {text : Text} :
    text.splitAtBracket = none ↔
      OpensNone (fun front => ({} : PlainReading).afterText front = {}) text :=
  @splitAtBracket.go_eq_none_iff {} text

/-! ## Two notions of top level -/

/-- A reader that starts at top level is at top level behind the text. -/
def AtTop (text : Text) : Prop :=
  ({} : Nesting).afterText text = {}

/-- Each square bracket of the text opens a group for the search if it is at top level. -/
def SeesBrackets (text : Text) : Prop :=
  ∀ front back, text = front ++ '[' :: back →
    (({} : PlainReading).afterText front = {} ↔ AtTop front)

/-- The square brackets of a piece are those before its last character, and that character. -/
theorem seesBrackets_concat {before : Text} :
    SeesBrackets (before ++ ['[']) ↔ SeesBrackets before ∧
      (({} : PlainReading).afterText before = {} ↔ AtTop before) := by
  constructor
  · intro sees
    refine ⟨fun front back split => ?_, sees before [] rfl⟩
    exact sees front (back ++ ['[']) (by rw [split]; simp)
  · rintro ⟨sees, here⟩ front back split
    rcases List.eq_nil_or_concat back with rfl | ⟨others, last, rfl⟩
    · rw [(List.append_inj' split rfl).1] at here
      exact here
    · have regrouped : before ++ ['['] = (front ++ '[' :: others) ++ [last] := by
        rw [split]
        simp
      exact sees front others (List.append_inj' regrouped rfl).1

/-- The search sees the brackets of a text that opens no group, neither for it nor at top level. -/
theorem seesBrackets_iff_of_none {text : Text} (none : OpensNone AtTop text) :
    SeesBrackets text ↔ OpensNone (fun front => ({} : PlainReading).afterText front = {}) text := by
  constructor
  · exact fun sees front back split opens =>
      none front back split ((sees front back split).mp opens)
  · exact fun noneToo front back split =>
      iff_of_false (noneToo front back split) (none front back split)

end Text

/-! ## Steps of the plain reader -/

/-- A bracket that a reader counts who knows no square ones. -/
def isCounted (bracket : Char) : Bool :=
  bracket == '(' || bracket == '{'

theorem closerOf?_cases {bracket closer : Char} (isClosed : closerOf? bracket = some closer) :
    bracket = '(' ∧ closer = ')' ∨ bracket = '[' ∧ closer = ']' ∨ bracket = '{' ∧ closer = '}' := by
  unfold closerOf? at isClosed
  split at isClosed
  all_goals cases isClosed
  all_goals simp

/-- The only opening bracket that the reader does not count is the square one. -/
theorem isCounted_of_isOpener {bracket : Char} (opens : isOpener bracket = true)
    (notSquare : bracket ≠ '[') : isCounted bracket = true := by
  obtain ⟨closer, isClosed⟩ := Option.isSome_iff_exists.mp opens
  rcases closerOf?_cases isClosed with ⟨rfl, _⟩ | ⟨rfl, _⟩ | ⟨rfl, _⟩
  · rfl
  · contradiction
  · rfl

namespace PlainReading

variable {depth : Nat} {character : Char} {brackets : List Char}

/-- A string ends at its mark, and at nothing else. -/
theorem after_inside (depth : Nat) (mark character : Char) :
    after { string := some mark, depth } character =
      { string := if character = mark then none else some mark, depth } := by
  simp [after, Text.plainStringAfter, Text.groupDepthAfter]

theorem after_quote (quotes : isQuote character = true) :
    after { depth } character = { string := some character, depth } := by
  have isSign : character = '"' ∨ character = '`' := by simpa [isQuote] using quotes
  rcases isSign with rfl | rfl <;> rfl

theorem after_opener (opens : isOpener character = true) :
    after { depth := brackets.countP isCounted } character =
      { depth := (character :: brackets).countP isCounted } := by
  rw [List.countP_cons]
  obtain ⟨closer, isClosed⟩ := Option.isSome_iff_exists.mp opens
  rcases closerOf?_cases isClosed with ⟨rfl, _⟩ | ⟨rfl, _⟩ | ⟨rfl, _⟩ <;> rfl

theorem after_closer {bracket : Char} (fitting : closerOf? bracket = some character) :
    after { depth := (bracket :: brackets).countP isCounted } character =
      { depth := brackets.countP isCounted } := by
  rw [List.countP_cons]
  rcases closerOf?_cases fitting with ⟨rfl, rfl⟩ | ⟨rfl, rfl⟩ | ⟨rfl, rfl⟩ <;> rfl

theorem after_plain (plain : isPlain character = true) :
    after { depth } character = { depth } := by
  have apart : ∀ bracket : Char, isPlain bracket = false → character ≠ bracket := by
    rintro bracket notPlain rfl
    exact absurd (plain.symm.trans notPlain) (by decide)
  simp [after, Text.plainStringAfter, Text.groupDepthAfter, isQuote, apart '"' (by decide),
    apart '`' (by decide), apart '(' (by decide), apart '{' (by decide), apart ')' (by decide),
    apart '}' (by decide)]

/-! ## Lines without escaped marks -/

/-- The two readers are in the same string, and are at top level at the same time: no square
bracket is the outermost open one. -/
structure InStep (reading : PlainReading) (nesting : Nesting) : Prop where
  string : reading.string = nesting.quoting.mark?
  quoted : ∀ mark, nesting.quoting.mark? = some mark → isQuote mark = true
  depth : reading.depth = nesting.brackets.countP isCounted
  outermost : ∀ bracket, nesting.brackets.getLast? = some bracket → isCounted bracket = true

variable {reading : PlainReading} {nesting : Nesting}

/-- Outside of strings there is no mark to end one. -/
theorem isQuote_of_outside (mark : Char) (isMark : Quoting.outside.mark? = some mark) :
    isQuote mark = true := by
  contradiction

theorem InStep.start : InStep {} {} := by
  refine ⟨rfl, isQuote_of_outside, rfl, fun bracket isLast => ?_⟩
  contradiction

theorem InStep.top_iff (inStep : InStep reading nesting) : reading = {} ↔ nesting = {} := by
  obtain ⟨string, quoted, depth, outermost⟩ := inStep
  obtain ⟨plainString, plainDepth⟩ := reading
  obtain ⟨quoting, brackets⟩ := nesting
  simp only at string depth
  subst string depth
  constructor
  · intro atTop
    obtain ⟨outside, noneOpen⟩ := PlainReading.mk.inj atTop
    cases quoting with
    | inside mark | escaping mark => contradiction
    | outside =>
        rcases List.eq_nil_or_concat brackets with rfl | ⟨inner, bracket, rfl⟩
        · rfl
        · have counted := outermost bracket (by simp)
          simp [counted] at noneOpen
  · rintro atTop
    obtain ⟨rfl, rfl⟩ := Nesting.mk.inj atTop
    rfl

/-- Inside of a string both readers look for its end. -/
theorem InStep.after_inside {depth : Nat} {mark : Char} {brackets : List Char}
    (inStep : InStep { string := some mark, depth } { quoting := .inside mark, brackets })
    (character : Char) :
    InStep (PlainReading.after { string := some mark, depth } character)
      (Nesting.after { quoting := .inside mark, brackets } character) := by
  obtain ⟨_, quoted, counted, outermost⟩ := inStep
  rw [PlainReading.after_inside, Nesting.after]
  dsimp only
  by_cases isMark : character = mark
  · have noBackslash : (character == '\\') = false := by
      rw [beq_eq_false_iff_ne, isMark]
      rintro rfl
      exact absurd (quoted _ rfl) (by decide)
    rw [if_pos isMark, if_neg (by simp [noBackslash]), if_pos (by simp [isMark])]
    exact ⟨rfl, isQuote_of_outside, counted, outermost⟩
  · rw [if_neg isMark]
    split
    · exact ⟨rfl, quoted, counted, outermost⟩
    · rw [if_neg (by simp [isMark])]
      exact ⟨rfl, quoted, counted, outermost⟩

/-- Outside of strings both readers see the same quotes and, but for square ones, brackets. -/
theorem InStep.after_outside {depth : Nat} {character : Char} {brackets : List Char}
    (inStep : InStep { string := none, depth } { brackets })
    (fits : ({ brackets } : Nesting).rejects character = false)
    (opensNone : character = '[' → brackets ≠ []) :
    InStep (PlainReading.after { string := none, depth } character)
      (Nesting.after { brackets } character) := by
  obtain ⟨_, _, rfl, outermost⟩ := inStep
  by_cases quotes : isQuote character = true
  · rw [after_quote quotes, Nesting.after]
    simp only [quotes, if_true]
    refine ⟨rfl, ?_, rfl, outermost⟩
    rintro mark isMark
    exact Option.some.inj isMark ▸ quotes
  · by_cases opens : isOpener character = true
    · rw [after_opener opens, Nesting.after]
      simp only [quotes, opens, Bool.false_eq_true, if_false, if_true]
      refine ⟨rfl, isQuote_of_outside, rfl, fun bracket isLast => ?_⟩
      rw [List.getLast?_cons] at isLast
      cases last : brackets.getLast? with
      | some lowest =>
          rw [last] at isLast
          exact outermost bracket (last.trans isLast)
      | none =>
          obtain rfl : character = bracket := by simpa [last] using isLast
          have noneOpen : brackets = [] := List.getLast?_eq_none_iff.mp last
          exact isCounted_of_isOpener opens fun isSquare => opensNone isSquare noneOpen
    · by_cases closes : isCloser character = true
      · obtain ⟨bracket, outer, rfl, fitting⟩ :=
          Nesting.exists_bracket_of_not_rejects fits rfl closes
        rw [(Text.after_of_isCloser closes outer).2, after_closer fitting]
        refine ⟨rfl, isQuote_of_outside, rfl, fun lowest isLast => outermost lowest ?_⟩
        rw [List.getLast?_cons, show outer.getLast? = some lowest from isLast]
        rfl
      · have plain : isPlain character = true := by simp [isPlain, quotes, opens, closes]
        rw [after_plain plain, (Text.after_of_isPlain rfl plain).2]
        exact ⟨rfl, isQuote_of_outside, rfl, outermost⟩

/-- The readers stay in step, except behind an escaped mark and at a square bracket at top level. -/
theorem InStep.after (inStep : InStep reading nesting) {character : Char}
    (fits : nesting.rejects character = false)
    (unescaped : nesting.quoting ≠ .escaping character)
    (opensNone : character = '[' → nesting ≠ {}) :
    InStep (reading.after character) (nesting.after character) := by
  obtain ⟨plainString, depth⟩ := reading
  obtain ⟨quoting, brackets⟩ := nesting
  cases quoting with
  | inside mark =>
      obtain rfl : plainString = some mark := inStep.string
      exact inStep.after_inside character
  | escaping mark =>
      obtain rfl : plainString = some mark := inStep.string
      have noMark : character ≠ mark := fun same => unescaped (by rw [same])
      refine ⟨?_, inStep.quoted, inStep.depth, inStep.outermost⟩
      simp [PlainReading.after, Text.plainStringAfter, Nesting.after, Quoting.mark?, noMark]
  | outside =>
      obtain rfl : plainString = none := inStep.string
      refine inStep.after_outside fits fun isBracket noneOpen => ?_
      exact opensNone isBracket (by rw [noneOpen])

/-- The readers are in step behind a text in which nothing takes them apart. -/
theorem InStep.afterText (inStep : InStep reading nesting) {text : Text}
    (accepted : nesting.accepts text = true)
    (unescaped : ∀ front mark back, text = front ++ mark :: back →
      (nesting.afterText front).quoting ≠ .escaping mark)
    (opensNone : ∀ front back, text = front ++ '[' :: back → nesting.afterText front ≠ {}) :
    InStep (reading.afterText text) (nesting.afterText text) := by
  induction text generalizing reading nesting with
  | nil => exact inStep
  | cons character rest inductionHypothesis =>
      rw [Nesting.accepts_cons, Bool.and_eq_true, Bool.not_eq_true'] at accepted
      have first := inStep.after accepted.1 (unescaped [] character rest rfl)
        fun isBracket => opensNone [] rest (by rw [isBracket]; rfl)
      refine inductionHypothesis first accepted.2 (fun front mark back split => ?_)
        fun front back split => ?_
      · exact unescaped (character :: front) mark back (by rw [split]; rfl)
      · exact opensNone (character :: front) back (by rw [split]; rfl)

end PlainReading

namespace Text

/-- A string of the text holds its own mark behind a backslash. -/
def EscapesMark (text : Text) : Prop :=
  ∃ front mark back, text = front ++ mark :: back ∧
    (({} : Nesting).afterText front).quoting = .escaping mark

/-- Where no mark is escaped, the search is at top level where a text is. -/
theorem seesBrackets_of_unescaped {text : Text} (accepted : ({} : Nesting).accepts text = true)
    (opensNone : OpensNone AtTop text) (unescaped : ¬EscapesMark text) :
    SeesBrackets text ∧ (({} : PlainReading).afterText text = {} ↔ AtTop text) := by
  have agree : ∀ front back, text = front ++ back →
      (({} : PlainReading).afterText front = {} ↔ AtTop front) := by
    rintro front back rfl
    rw [Nesting.accepts_append, Bool.and_eq_true] at accepted
    refine (PlainReading.InStep.start.afterText accepted.1 ?_ ?_).top_iff
    · rintro before mark behind rfl escapes
      exact unescaped ⟨before, mark, behind ++ back, by simp, escapes⟩
    · rintro before behind rfl
      exact opensNone before (behind ++ back) (by simp)
  exact ⟨fun front back split => agree front _ split, agree text [] (by simp)⟩

end Text

end SchemaMarkup
