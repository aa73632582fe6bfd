import SchemaMarkup.Grammar.Content
import SchemaMarkup.Proofs.Text.TopLevelDivision

/-!
# Content and balance

Content is read part by part, with no count of open brackets, and balance is checked character by
character, with nothing but that count. They agree: what is read as content is well nested
(`Text.wellNested_takeContent`), and a well-nested text is read as a whole where something follows
with which no part starts (`Text.takeContent_of_wellNested`). So a group is read if its content is
balanced (`Text.readGroup_eq_some_iff`), and the arguments of a balanced text are the texts between
its top-level commas (`Text.takeArguments_of_isBalanced`).
-/

namespace SchemaMarkup

namespace Text

variable {text inner rest following : Text} {mark first closer : Char} {isContent : Char → Bool}

/-! ## What is read -/

/-- What is read as a string is a body and the mark. -/
theorem stringBody_of_takeString? {string : Front text}
    (isRead : takeString? mark text = some string) :
    ∃ body, StringBody mark body ∧ string.taken = body ++ [mark] := by
  fun_induction takeString? mark text with
  | case1 => contradiction
  | case2 => contradiction
  | case3 escaped rest inductionHypothesis =>
      obtain ⟨later, isReadLater, rfl⟩ := Option.map_eq_some_iff.mp isRead
      obtain ⟨body, isBody, taken⟩ := inductionHypothesis isReadLater
      exact ⟨'\\' :: escaped :: body, .escaped isBody, by simp [Front.cons, taken]⟩
  | case4 character rest notLast notEscaping isMark =>
      cases isRead
      exact ⟨[], .nil, by simp [Front.cons, Front.none, eq_of_beq isMark]⟩
  | case5 character rest notLast notEscaping noMark inductionHypothesis =>
      obtain ⟨later, isReadLater, rfl⟩ := Option.map_eq_some_iff.mp isRead
      obtain ⟨body, isBody, taken⟩ := inductionHypothesis isReadLater
      have noBackslash : character ≠ '\\' := by
        rintro rfl
        cases rest with
        | nil => exact notLast rfl rfl
        | cons next others => exact notEscaping next others rfl rfl
      exact ⟨character :: body, .plain (by simpa using noMark) noBackslash isBody,
        by simp [Front.cons, taken]⟩

/-- A group is read where its closing bracket follows the content. -/
theorem takeGroup?_eq_some_iff {group : Front text} :
    takeGroup? closer text = some group ↔
      (takeContent isPlain text).rest = closer :: group.rest ∧
        group.taken = (takeContent isPlain text).taken ++ [closer] := by
  obtain ⟨taken, rest, whole⟩ := group
  rw [takeGroup?]
  split
  · next ends => simp [ends]
  · next next following behind =>
      by_cases same : next = closer
      · subst same
        simp [behind, Front.through, Front.none, eq_comm, and_comm]
      · simp [behind, same]

/-- The ways in which a part can start. -/
theorem takePart?_eq_some_iff {part : Front rest} :
    takePart? isContent first rest = some part ↔
      (isQuote first = true ∧ takeString? first rest = some part) ∨
      (∃ closer, closerOf? first = some closer ∧ takeGroup? closer rest = some part) ∨
      (isQuote first = false ∧ closerOf? first = none ∧ isContent first = true ∧
        part = .none rest) := by
  rw [takePart?]
  by_cases quotes : isQuote first = true
  · have opensNot : closerOf? first = none := by
      have isSign : first = '"' ∨ first = '`' := by simpa [isQuote] using quotes
      rcases isSign with rfl | rfl <;> rfl
    rw [if_pos quotes]
    simp [quotes, opensNot]
  · rw [if_neg quotes]
    cases opened : closerOf? first with
    | some closer => simp [quotes]
    | none => simp [quotes, @eq_comm _ part]

/-- Behind a part the content goes on. -/
theorem takeContent_of_part {part : Front rest}
    (isPart : takePart? isContent first rest = some part) :
    (takeContent isContent (first :: rest)).parts =
      (first :: (part.taken ++ (takeContent isContent part.rest).taken),
        (takeContent isContent part.rest).rest) := by
  rw [takeContent, isPart]
  rfl

/-- Where no part starts, the content ends. -/
theorem takeContent_of_noPart (noPart : takePart? isContent first rest = none) :
    (takeContent isContent (first :: rest)).parts = ([], first :: rest) := by
  rw [takeContent, noPart]
  rfl

/-- What is read as content is well nested, if no quote and no bracket stands for itself in it. -/
theorem wellNested_takeContent {isContent : Char → Bool}
    (plain : ∀ character, isContent character = true → isPlain character = true) (text : Text) :
    WellNested (takeContent isContent text).taken := by
  match text with
  | [] =>
      rw [takeContent]
      exact .nil
  | first :: rest =>
      cases isPart : takePart? isContent first rest with
      | none =>
          rw [(Prod.mk.inj (takeContent_of_noPart isPart)).1]
          exact .nil
      | some part =>
          have shorter := part.length_rest_le
          have later := wellNested_takeContent plain part.rest
          rw [(Prod.mk.inj (takeContent_of_part isPart)).1]
          rcases takePart?_eq_some_iff.mp isPart with
            ⟨quotes, isString⟩ | ⟨closer, closes, isGroup⟩ | ⟨_, _, isContentHere, rfl⟩
          · obtain ⟨body, isBody, taken⟩ := stringBody_of_takeString? isString
            rw [taken, List.append_assoc]
            exact .string quotes isBody later
          · obtain ⟨_, taken⟩ := takeGroup?_eq_some_iff.mp isGroup
            have inside := @wellNested_takeContent isPlain (fun _ => id) rest
            rw [taken, List.append_assoc]
            exact .group closes inside later
          · exact .plain (plain first isContentHere) later
termination_by text.length
decreasing_by all_goals simp only [List.length_cons]; omega

/-! ## What is read as a whole -/

/-- Only a backslash takes the next character with it. -/
theorem takeString?_cons {character : Char} (noBackslash : character ≠ '\\') (rest : Text) :
    takeString? mark (character :: rest) =
      if character == mark then some ((Front.none rest).cons character)
      else (takeString? mark rest).map (Front.cons character) := by
  rw [takeString?]
  · exact fun isBackslash _ => noBackslash isBackslash
  · exact fun _ _ isBackslash _ => noBackslash isBackslash

/-- A string is read up to the mark behind its body. -/
theorem takeString?_of_stringBody (isMark : isQuote mark = true) (body : StringBody mark inner)
    (rest : Text) :
    (takeString? mark (inner ++ mark :: rest)).map Front.parts = some (inner ++ [mark], rest) := by
  have noBackslash : mark ≠ '\\' := by
    rintro rfl
    contradiction
  induction body with
  | nil =>
      rw [List.nil_append, takeString?_cons noBackslash]
      simp [Front.parts, Front.cons, Front.none]
  | @escaped character later _ inductionHypothesis =>
      obtain ⟨string, isRead, parts⟩ := Option.map_eq_some_iff.mp inductionHypothesis
      obtain ⟨taken, behind⟩ := Prod.mk.inj parts
      rw [List.cons_append, List.cons_append, takeString?, isRead]
      simp [Front.parts, Front.cons, taken, behind]
  | @plain character later noMark noBackslashHere _ inductionHypothesis =>
      obtain ⟨string, isRead, parts⟩ := Option.map_eq_some_iff.mp inductionHypothesis
      obtain ⟨taken, behind⟩ := Prod.mk.inj parts
      rw [List.cons_append, takeString?_cons noBackslashHere, isRead,
        if_neg (by simpa using noMark)]
      simp [Front.parts, Front.cons, taken, behind]

/-- Whether no part of the content starts with the text. -/
def EndsContent (isContent : Char → Bool) (text : Text) : Prop :=
  ∀ first rest, text = first :: rest → takePart? isContent first rest = none

/-- Neither a closing bracket nor a plain character that the content does not hold starts a part. -/
theorem endsContent_cons (noQuote : isQuote first = false) (opensNot : closerOf? first = none)
    (noContent : isContent first = false) (rest : Text) :
    EndsContent isContent (first :: rest) := by
  rintro _ _ ⟨⟩
  rw [takePart?]
  simp [noQuote, opensNot, noContent]

theorem parts_takeContent_of_ends (ends : EndsContent isContent text) :
    (takeContent isContent text).parts = ([], text) := by
  cases text with
  | nil =>
      rw [takeContent]
      rfl
  | cons first rest => exact takeContent_of_noPart (ends first rest rfl)

/-- Content goes on behind a part. -/
theorem parts_takeContent_cons {taken later : Text} {wanted : Text × Text}
    (isPart : (takePart? isContent first text).map Front.parts = some (taken, later))
    (behind : (takeContent isContent later).parts = wanted) :
    (takeContent isContent (first :: text)).parts = (first :: (taken ++ wanted.1), wanted.2) := by
  obtain ⟨part, isPartHere, parts⟩ := Option.map_eq_some_iff.mp isPart
  cases parts
  rw [takeContent_of_part isPartHere, ← behind]
  rfl

/-- A closing bracket starts no part, and is none that stands for itself. -/
theorem endsContent_closer {bracket : Char} (closes : closerOf? bracket = some closer)
    {wanted : Char → Bool} (rest : Text) :
    EndsContent (fun character => isPlain character && !wanted character) (closer :: rest) := by
  rcases closerOf?_cases closes with ⟨_, rfl⟩ | ⟨_, rfl⟩ | ⟨_, rfl⟩
  all_goals exact endsContent_cons rfl rfl rfl rest

/-- An opening bracket starts a group. -/
theorem takePart?_of_closerOf? {bracket : Char} (closes : closerOf? bracket = some closer)
    (rest : Text) : takePart? isContent bracket rest = takeGroup? closer rest := by
  rcases closerOf?_cases closes with ⟨rfl, rfl⟩ | ⟨rfl, rfl⟩ | ⟨rfl, rfl⟩
  all_goals
    rw [takePart?]
    rfl

theorem takeGroup?_of_parts
    (content : (takeContent isPlain text).parts = (inner, closer :: following)) :
    (takeGroup? closer text).map Front.parts = some (inner ++ [closer], following) := by
  obtain ⟨rfl, behind⟩ := Prod.mk.inj content
  rw [takeGroup?]
  split
  · next ends => simp [ends] at behind
  · next next rest found =>
      cases found.symm.trans behind
      rw [if_pos (beq_self_eq_true closer)]
      rfl

/-- A plain character is neither quote nor bracket. -/
theorem apart_of_isPlain {character : Char} (plain : isPlain character = true) :
    isQuote character = false ∧ closerOf? character = none ∧ isCloser character = false := by
  simp only [isPlain, isOpener, Bool.and_eq_true, Bool.not_eq_true', Option.isSome_eq_false_iff,
    Option.isNone_iff_eq_none] at plain
  exact ⟨plain.1.1, plain.1.2, plain.2⟩

/-- A text that shows a class behind a front that comes back to top level shows it as well. -/
theorem hides_behind {front : Text} {wanted : Char → Bool} (reads : ({} : Nesting).ReadsToEnd front)
    (hides : ({} : Nesting).shows wanted (front ++ rest) = false) :
    ({} : Nesting).shows wanted rest = false := by
  rw [Nesting.shows_append, reads.2, Bool.or_eq_false_iff] at hides
  exact hides.2

theorem plain_and_not_false : (fun character => isPlain character && !false) = isPlain := by
  funext character
  rw [Bool.not_false, Bool.and_true]

/-- A well-nested text that does not show the characters of a class is read as a whole by a reader
for which they do not stand for themselves. -/
theorem takeContent_of_wellNested (nested : WellNested text) {wanted : Char → Bool}
    (hides : ({} : Nesting).shows wanted text = false)
    (ends : EndsContent (fun character => isPlain character && !wanted character) rest) :
    (takeContent (fun character => isPlain character && !wanted character)
      (text ++ rest)).parts = (text, rest) := by
  induction nested generalizing wanted rest with
  | nil => exact parts_takeContent_of_ends ends
  | @plain character later isPlainHere _ inductionHypothesis =>
      rw [Nesting.shows_cons, (@after_of_isPlain {} character rfl isPlainHere).2,
        Bool.or_eq_false_iff] at hides
      have unwanted : wanted character = false := hides.1
      obtain ⟨noQuote, opensNot, _⟩ := apart_of_isPlain isPlainHere
      have isPart : (takePart? (fun character => isPlain character && !wanted character) character
          (later ++ rest)).map Front.parts = some ([], later ++ rest) := by
        rw [takePart?_eq_some_iff.mpr
          (.inr (.inr ⟨noQuote, opensNot, by simp [isPlainHere, unwanted], rfl⟩))]
        rfl
      exact parts_takeContent_cons isPart (inductionHypothesis hides.2 ends)
  | @string mark inner later isMark body nested inductionHypothesis =>
      have hidesLater : ({} : Nesting).shows wanted later = false :=
        hides_behind (WellNested.string isMark body .nil).reads (by simpa using hides)
      have isPart : (takePart? (fun character => isPlain character && !wanted character) mark
          (inner ++ mark :: (later ++ rest))).map Front.parts =
            some (inner ++ [mark], later ++ rest) := by
        rw [takePart?, if_pos isMark]
        exact takeString?_of_stringBody isMark body (later ++ rest)
      have whole : mark :: (inner ++ mark :: later) ++ rest =
          mark :: (inner ++ mark :: (later ++ rest)) := by simp
      rw [whole, parts_takeContent_cons isPart (inductionHypothesis hidesLater ends)]
      simp
  | @group bracket closer inner later closes contents nested insideHypothesis inductionHypothesis =>
      have hidesLater : ({} : Nesting).shows wanted later = false :=
        hides_behind (WellNested.group closes contents .nil).reads (by simpa using hides)
      have isPart : (takePart? (fun character => isPlain character && !wanted character) bracket
          (inner ++ closer :: (later ++ rest))).map Front.parts =
            some (inner ++ [closer], later ++ rest) := by
        have content := @insideHypothesis (closer :: (later ++ rest)) (fun _ => false)
          (Nesting.shows_of_unwanted fun _ _ => rfl) (endsContent_closer closes _)
        rw [plain_and_not_false] at content
        rw [takePart?_of_closerOf? closes]
        exact takeGroup?_of_parts content
      have whole : bracket :: (inner ++ closer :: later) ++ rest =
          bracket :: (inner ++ closer :: (later ++ rest)) := by simp
      rw [whole, parts_takeContent_cons isPart (inductionHypothesis hidesLater ends)]
      simp

/-! ## Groups and arguments -/

/-- A group is read if its content is balanced and a bracket of its kind follows it. -/
theorem readGroup_eq_some_iff {bracket : Char} (closes : closerOf? bracket = some closer) :
    readGroup bracket text = some (inner, following) ↔
      inner.isBalanced = true ∧ text = inner ++ closer :: following := by
  constructor
  · intro isRead
    have whole := (takeContent isPlain text).whole
    rw [readGroup] at isRead
    split at isRead
    · next next rest behind =>
        split at isRead
        · next fits =>
            cases isRead
            have isCloser : closer = next := by simpa [closes] using fits
            have nested := @wellNested_takeContent isPlain (fun _ => id) text
            rw [behind, ← isCloser] at whole
            exact ⟨isBalanced_iff_wellNested.mpr nested, whole.symm⟩
        · contradiction
    · contradiction
  · rintro ⟨balanced, rfl⟩
    have content := @takeContent_of_wellNested inner (closer :: following)
      (isBalanced_iff_wellNested.mp balanced) (fun _ => false)
      (Nesting.shows_of_unwanted fun _ _ => rfl) (endsContent_closer closes following)
    rw [plain_and_not_false] at content
    obtain ⟨taken, behind⟩ := Prod.mk.inj content
    rw [readGroup]
    split
    · next next rest found =>
        cases found.symm.trans behind
        rw [if_pos (by simp [closes]), taken]
    · next ends => rw [ends] at behind; contradiction

/-- Arguments and the commas between them are well nested. -/
theorem wellNested_takeArguments (text : Text) : WellNested (takeArguments text).2.taken := by
  have argument : ∀ text, WellNested (takeContent isArgumentCharacter text).taken :=
    wellNested_takeContent fun character isArgument => (Bool.and_eq_true_iff.mp isArgument).1
  fun_induction takeArguments text with
  | case1 text _ more _ _ later inductionHypothesis =>
      exact (argument text).append (.plain (by decide) inductionHypothesis)
  | case2 text => exact argument text

/-- Behind a comma there is one argument more. -/
theorem takeArguments_of_comma {argument more : Text}
    (content : (takeContent isArgumentCharacter text).parts = (argument, ',' :: more)) :
    (takeArguments text).1 = argument :: (takeArguments more).1 ∧
      (takeArguments text).2.parts = (argument ++ ',' :: (takeArguments more).2.taken,
        (takeArguments more).2.rest) := by
  obtain ⟨rfl, behind⟩ := Prod.mk.inj content
  rw [takeArguments]
  split
  · next found =>
      cases found.symm.trans behind
      exact ⟨rfl, rfl⟩
  · next noComma => exact absurd behind (noComma more)

/-- The last argument ends where no comma follows. -/
theorem takeArguments_of_last {argument : Text}
    (content : (takeContent isArgumentCharacter text).parts = (argument, rest))
    (noComma : ∀ more, rest ≠ ',' :: more) :
    (takeArguments text).1 = [argument] ∧ (takeArguments text).2.parts = (argument, rest) := by
  obtain ⟨rfl, rfl⟩ := Prod.mk.inj content
  rw [takeArguments]
  split
  · next more found => exact absurd found (noComma more)
  · exact ⟨rfl, rfl⟩

/-- The arguments of a balanced text are the texts between its commas at top level. -/
theorem takeArguments_of_isBalanced {inner : Text} (balanced : inner.isBalanced = true)
    (following : Text) :
    (takeArguments (inner ++ ')' :: following)).1 = inner.splitAt ',' ∧
      (takeArguments (inner ++ ')' :: following)).2.parts = (inner, ')' :: following) := by
  have closes : closerOf? '(' = some ')' := rfl
  rcases hidden_or_first ',' {} inner with hidden | ⟨front, later, rfl, hidden, atTop⟩
  · have content : (takeContent isArgumentCharacter (inner ++ ')' :: following)).parts = _ :=
      takeContent_of_wellNested (isBalanced_iff_wellNested.mp balanced) hidden
        (endsContent_closer closes following)
    rw [splitAt_of_hidden hidden]
    exact takeArguments_of_last content (by simp)
  · obtain ⟨balancedFront, balancedLater⟩ := balanced_around (by decide) atTop balanced
    have ends : EndsContent isArgumentCharacter (',' :: (later ++ ')' :: following)) :=
      endsContent_cons rfl rfl rfl _
    have content : (takeContent isArgumentCharacter
        (front ++ ',' :: (later ++ ')' :: following))).parts = _ :=
      takeContent_of_wellNested (isBalanced_iff_wellNested.mp balancedFront) hidden ends
    obtain ⟨argument, arguments⟩ := takeArguments_of_comma content
    obtain ⟨others, parts⟩ := takeArguments_of_isBalanced balancedLater following
    obtain ⟨taken, behind⟩ := Prod.mk.inj parts
    rw [splitAt_append later hidden atTop (by decide), List.append_assoc, List.cons_append,
      argument, arguments, others, taken, behind]
    exact ⟨rfl, rfl⟩
termination_by inner.length

/-- Arguments are read in a group if what the group holds is balanced. -/
theorem takeArguments_eq_iff :
    (takeArguments text).2.parts = (inner, ')' :: following) ↔
      inner.isBalanced = true ∧ text = inner ++ ')' :: following := by
  constructor
  · intro parts
    obtain ⟨taken, behind⟩ := Prod.mk.inj parts
    have whole := (takeArguments text).2.whole
    rw [taken, behind] at whole
    exact ⟨isBalanced_iff_wellNested.mpr (taken ▸ wellNested_takeArguments text), whole.symm⟩
  · rintro ⟨balanced, rfl⟩
    exact (takeArguments_of_isBalanced balanced following).2

end Text

end SchemaMarkup
