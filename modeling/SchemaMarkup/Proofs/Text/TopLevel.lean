import SchemaMarkup.Proofs.Text.Balance
import SchemaMarkup.Text.Cut

/-!
# What texts show at top level

Every cut of a line is made at a character that the line shows at top level, so what matters of a
text is whether it shows a character of a class there: `Nesting.shows`. A text that shows none and
leads from top level to top level seals the class (`Text.Seals`). Texts that seal a class are
put together to texts that seal it, and a cut or a split at a character of the class goes past
them as a whole.
-/

namespace SchemaMarkup

namespace Nesting

/-- Whether a character of a class stands outside of strings and brackets. -/
def shows (nesting : Nesting) (wanted : Char → Bool) : Text → Bool
  | [] => false
  | character :: rest =>
      nesting.isTop && wanted character || (nesting.after character).shows wanted rest

variable {nesting : Nesting} {wanted : Char → Bool}

@[simp] theorem shows_nil : nesting.shows wanted [] = false := rfl

@[simp] theorem shows_cons {character : Char} {rest : Text} :
    nesting.shows wanted (character :: rest) =
      (nesting.isTop && wanted character ||
        (nesting.after character).shows wanted rest) := rfl

@[simp] theorem shows_append {left right : Text} :
    nesting.shows wanted (left ++ right) =
      (nesting.shows wanted left || (nesting.afterText left).shows wanted right) := by
  induction left generalizing nesting with
  | nil => simp
  | cons character rest inductionHypothesis =>
      rw [List.cons_append, shows_cons, shows_cons, afterText_cons, inductionHypothesis,
        Bool.or_assoc]

/-- The reader is at top level where it has seen no quote and no bracket that is still open. -/
theorem isTop_iff : nesting.isTop = true ↔ nesting = {} := by
  obtain ⟨quoting, brackets⟩ := nesting
  simp [isTop]

/-- A character that the reader sees at top level stands outside of strings and brackets. -/
theorem isTop_of_seesTop {character : Char} (sees : nesting.seesTop character = true) :
    nesting.isTop = true :=
  (Bool.and_eq_true_iff.mp sees).1

/-- What a text does not hold it does not show. -/
theorem shows_of_unwanted {text : Text} (unwanted : ∀ character ∈ text, wanted character = false) :
    nesting.shows wanted text = false := by
  induction text generalizing nesting with
  | nil => rfl
  | cons character rest inductionHypothesis =>
      obtain ⟨here, later⟩ := List.forall_mem_cons.mp unwanted
      rw [shows_cons, here, inductionHypothesis later, Bool.and_false, Bool.or_false]

/-- Inside of a bracket nothing is at top level, as long as the bracket is not closed. -/
theorem shows_under {bracket : Char} {outer : List Char} {text : Text}
    (accepted : nesting.accepts text = true) :
    (nesting.under (bracket :: outer)).shows wanted text = false := by
  induction text generalizing nesting with
  | nil => rfl
  | cons character rest inductionHypothesis =>
      rw [accepts_cons, Bool.and_eq_true, Bool.not_eq_true'] at accepted
      have inside : (nesting.under (bracket :: outer)).isTop = false := by
        simp [isTop, under]
      rw [shows_cons, inside, (after_under accepted.1 _).2, inductionHypothesis accepted.2]
      rfl

/-! ## Strings -/

/-- The reader is in a string, and all of the text is in it too. -/
def StaysInside (nesting : Nesting) (text : Text) : Prop :=
  ∀ front back, text = front ++ back → (nesting.afterText front).quoting ≠ .outside

theorem staysInside_cons {character : Char} {rest : Text} :
    nesting.StaysInside (character :: rest) ↔
      nesting.quoting ≠ .outside ∧ (nesting.after character).StaysInside rest := by
  constructor
  · intro stays
    exact ⟨stays [] _ rfl, fun front back split =>
      stays (character :: front) back (by rw [split, List.cons_append])⟩
  · rintro ⟨here, later⟩ front back split
    cases front with
    | nil => exact here
    | cons first front =>
        obtain ⟨rfl, behind⟩ := List.cons.inj split
        exact later front back behind

/-- Inside of a string nothing is refused and nothing is at top level. -/
theorem StaysInside.hides {text : Text} (stays : nesting.StaysInside text) :
    nesting.accepts text = true ∧ nesting.shows wanted text = false := by
  induction text generalizing nesting with
  | nil => exact ⟨rfl, rfl⟩
  | cons character rest inductionHypothesis =>
      obtain ⟨inside, later⟩ := staysInside_cons.mp stays
      obtain ⟨accepted, hidden⟩ := inductionHypothesis later
      have notOutside : (nesting.quoting == Quoting.outside) = false := by simpa using inside
      simp [accepted, hidden, rejects, isTop, notOutside]

/-- A text without the mark and without backslashes keeps the reader in a string. -/
theorem staysInside_of_not_mem {mark : Char} {text : Text} (noMark : mark ∉ text)
    (noBackslash : '\\' ∉ text) :
    ({ quoting := .inside mark } : Nesting).StaysInside text ∧
      ({ quoting := .inside mark } : Nesting).afterText text = { quoting := .inside mark } := by
  induction text with
  | nil => exact ⟨fun front back split => by simp [(List.append_eq_nil_iff.mp split.symm).1], rfl⟩
  | cons character rest inductionHypothesis =>
      obtain ⟨notMark, noMarkLater⟩ := not_or.mp (mt List.mem_cons.mpr noMark)
      obtain ⟨notBackslash, noBackslashLater⟩ := not_or.mp (mt List.mem_cons.mpr noBackslash)
      have stays : ({ quoting := .inside mark } : Nesting).after character =
          { quoting := .inside mark } := by
        simp [after, Ne.symm notMark, Ne.symm notBackslash]
      rw [staysInside_cons, afterText_cons, stays]
      exact ⟨⟨by simp, (inductionHypothesis noMarkLater noBackslashLater).1⟩,
        (inductionHypothesis noMarkLater noBackslashLater).2⟩

end Nesting

namespace Text

/-! ## Plain texts -/

theorem isPlain_iff {character : Char} :
    isPlain character = true ↔ character ∉ ['"', '`', '(', '[', '{', ')', ']', '}'] := by
  have opens_iff : isOpener character = true ↔
      character = '(' ∨ character = '[' ∨ character = '{' := by
    unfold isOpener closerOf?
    split <;> simp_all
  rw [isPlain, Bool.and_eq_true, Bool.and_eq_true, Bool.not_eq_true', Bool.not_eq_true',
    Bool.not_eq_true', ← Bool.not_eq_true (isOpener character), opens_iff]
  simp [isQuote, isCloser, and_assoc]

theorem isPlain_of_isNameCharacter {character : Char}
    (isName : isNameCharacter character = true) : isPlain character = true := by
  rw [isPlain_iff]
  intro listed
  have noName : ['"', '`', '(', '[', '{', ')', ']', '}'].all (!isNameCharacter ·) = true := by
    decide
  have notNamed := List.all_eq_true.mp noName character listed
  rw [isName] at notNamed
  contradiction

/-- Outside of strings plain text leaves the reader where it is. -/
theorem reads_of_plain {nesting : Nesting} {text : Text} (outside : nesting.quoting = .outside)
    (plain : ∀ character ∈ text, isPlain character = true) :
    nesting.accepts text = true ∧ nesting.afterText text = nesting := by
  induction text with
  | nil => exact ⟨rfl, rfl⟩
  | cons character rest inductionHypothesis =>
      obtain ⟨here, later⟩ := List.forall_mem_cons.mp plain
      obtain ⟨fits, stays⟩ := after_of_isPlain outside here
      obtain ⟨accepted, staysLater⟩ := inductionHypothesis later
      rw [Nesting.accepts_cons, Nesting.afterText_cons, fits, stays, accepted, staysLater]
      exact ⟨rfl, rfl⟩

/-! ## Sealed texts -/

/-- The text is balanced, and shows no character of a class at top level. -/
structure Seals (wanted : Char → Bool) (text : Text) : Prop where
  reads : ({} : Nesting).ReadsToEnd text
  hides : ({} : Nesting).shows wanted text = false

variable {wanted : Char → Bool}

theorem Seals.isBalanced {text : Text} (sealed : Seals wanted text) : text.isBalanced = true :=
  isBalanced_iff.mpr sealed.reads

theorem Seals.nil : Seals wanted [] :=
  ⟨⟨rfl, rfl⟩, rfl⟩

theorem Seals.append {left right : Text} (sealedLeft : Seals wanted left)
    (sealedRight : Seals wanted right) : Seals wanted (left ++ right) := by
  refine ⟨?_, ?_⟩
  · rw [Nesting.readsToEnd_append, sealedLeft.reads.2]
    exact ⟨sealedLeft.reads.1, sealedRight.reads⟩
  · rw [Nesting.shows_append, sealedLeft.reads.2, sealedLeft.hides, sealedRight.hides]
    rfl

/-- A plain character does not take the reader away from top level. -/
theorem Seals.cons {character : Char} {rest : Text} (plain : isPlain character = true)
    (unwanted : wanted character = false) (sealed : Seals wanted rest) :
    Seals wanted (character :: rest) := by
  obtain ⟨fits, stays⟩ := @after_of_isPlain {} character rfl plain
  refine ⟨?_, ?_⟩
  · rw [Nesting.readsToEnd_cons, stays]
    exact ⟨fits, sealed.reads⟩
  · rw [Nesting.shows_cons, stays, sealed.hides, unwanted, Bool.and_false, Bool.or_false]

theorem seals_of_plain {text : Text}
    (plain : ∀ character ∈ text, isPlain character = true ∧ wanted character = false) :
    Seals wanted text := by
  induction text with
  | nil => exact .nil
  | cons character rest inductionHypothesis =>
      obtain ⟨⟨isPlainHere, unwanted⟩, later⟩ := List.forall_mem_cons.mp plain
      exact .cons isPlainHere unwanted (inductionHypothesis later)

theorem seals_of_all {text : Text}
    (plain : text.all (fun character => isPlain character && !wanted character) = true) :
    Seals wanted text :=
  seals_of_plain fun character listed => by simpa using List.all_eq_true.mp plain character listed

theorem seals_of_blank {sign : Char} (filled : isBlank sign = false) {blanks : Text}
    (blank : ∀ character ∈ blanks, isBlank character = true) : Seals (· == sign) blanks := by
  refine seals_of_plain fun character listed => ⟨isPlain_of_isBlank (blank character listed), ?_⟩
  rw [beq_eq_false_iff_ne]
  rintro rfl
  exact absurd ((blank character listed).symm.trans filled) (by decide)

/-- A balanced text does not show what it does not hold. -/
theorem seals_of_not_mem {sign : Char} {text : Text} (balanced : text.isBalanced = true)
    (absent : sign ∉ text) : Seals (· == sign) text := by
  refine ⟨isBalanced_iff.mp balanced, Nesting.shows_of_unwanted fun character listed => ?_⟩
  rw [beq_eq_false_iff_ne]
  rintro rfl
  exact absent listed

theorem Seals.intercalate {gap : Text} {items : List Text} (sealedGap : Seals wanted gap)
    (sealed : ∀ item ∈ items, Seals wanted item) : Seals wanted (List.intercalate gap items) := by
  induction items with
  | nil => exact .nil
  | cons item others inductionHypothesis =>
      obtain ⟨here, later⟩ := List.forall_mem_cons.mp sealed
      cases others with
      | nil => simpa using here
      | cons next rest =>
          rw [List.intercalate_cons_cons]
          exact (here.append sealedGap).append (inductionHypothesis later)

/-- A group with balanced contents shows its opening bracket only. -/
theorem Seals.group {bracket closer : Char} {inner : Text}
    (closes : closerOf? bracket = some closer) (unwanted : wanted bracket = false)
    (balanced : inner.isBalanced = true) :
    Seals wanted (bracket :: (inner ++ [closer])) := by
  obtain ⟨accepted, atTop⟩ := isBalanced_iff.mp balanced
  obtain ⟨acceptedInside, staysInside⟩ := Nesting.afterText_under accepted [bracket]
  have opens : ({} : Nesting).rejects bracket = false ∧
      ({} : Nesting).after bracket = ({} : Nesting).under [bracket] := by
    unfold closerOf? at closes
    split at closes
    all_goals cases closes
    all_goals decide
  obtain ⟨notRejected, opened⟩ := opens
  obtain ⟨fitting_iff, closed⟩ :=
    @after_of_isCloser bracket closer (isCloser_of_closerOf? closes) []
  rw [atTop] at staysInside
  have inside : ({} : Nesting).under [bracket] = { brackets := [bracket] } := rfl
  refine ⟨⟨?_, ?_⟩, ?_⟩
  · rw [Nesting.accepts_cons, notRejected, opened, Nesting.accepts_append, acceptedInside,
      staysInside, Nesting.accepts_cons, inside, fitting_iff.mpr closes]
    rfl
  · rw [Nesting.afterText_cons, opened, Nesting.afterText_append, staysInside, inside,
      Nesting.afterText_cons, closed]
    rfl
  · have hidden : ({ brackets := [bracket] } : Nesting).isTop = false := by
      simp [Nesting.isTop]
    rw [Nesting.shows_cons, unwanted, opened, Nesting.shows_append, Nesting.shows_under accepted,
      staysInside, inside, Nesting.shows_cons, hidden]
    simp

/-- A string shows its first mark only. -/
theorem Seals.string {mark : Char} {inner : Text} (isMark : isQuote mark = true)
    (unwanted : wanted mark = false)
    (stays : ({ quoting := .inside mark } : Nesting).StaysInside inner)
    (ends : ({ quoting := .inside mark } : Nesting).afterText inner = { quoting := .inside mark }) :
    Seals wanted (mark :: (inner ++ [mark])) := by
  have sides : ({} : Nesting).rejects mark = false ∧
      ({} : Nesting).after mark = { quoting := .inside mark } ∧
      ({ quoting := .inside mark } : Nesting).rejects mark = false ∧
      ({ quoting := .inside mark } : Nesting).after mark = {} := by
    have isSign : mark = '"' ∨ mark = '`' := by simpa [isQuote] using isMark
    rcases isSign with rfl | rfl <;> decide
  obtain ⟨startFits, started, endFits, ended⟩ := sides
  obtain ⟨accepted, hidden⟩ := @Nesting.StaysInside.hides _ wanted _ stays
  refine ⟨⟨?_, ?_⟩, ?_⟩
  · rw [Nesting.accepts_cons, startFits, started, Nesting.accepts_append, accepted, ends,
      Nesting.accepts_cons, endFits]
    rfl
  · rw [Nesting.afterText_cons, started, Nesting.afterText_append, ends, Nesting.afterText_cons,
      ended]
    rfl
  · rw [Nesting.shows_cons, unwanted, started, Nesting.shows_append, hidden, ends,
      Nesting.shows_cons]
    simp [Nesting.isTop]

/-! ## Cuts -/

/-- What a reader has seen last, behind one more character. -/
theorem getLast?_cons_or (character : Char) (text : Text) (previous : Option Char) :
    (character :: text).getLast?.or previous = text.getLast?.or (some character) := by
  rw [List.getLast?_cons]
  cases text.getLast? <;> rfl

/-- What stands before a text does not matter to a cut that is not told by it. -/
theorem cutWhere.go_unseen {stop : Option Char → Char → Text → Bool}
    (unseen : ∀ previous other character following,
      stop previous character following = stop other character following)
    (nesting : Nesting) (previous other : Option Char) (text : Text) :
    go stop nesting previous text = go stop nesting other text := by
  cases text with
  | nil => rfl
  | cons character rest => rw [go, go, unseen previous other]

/-- A cut goes past a text that shows no character at which it could be made. -/
theorem cutWhere.go_append_of_hidden {stop : Option Char → Char → Text → Bool}
    (only : ∀ previous character rest, stop previous character rest = true →
      wanted character = true)
    {nesting : Nesting} {previous : Option Char} {front : Text}
    (hidden : nesting.shows wanted front = false) (rest : Text) :
    go stop nesting previous (front ++ rest) =
      (go stop (nesting.afterText front) (front.getLast?.or previous) rest).map fun cut =>
        { cut with before := front ++ cut.before } := by
  induction front generalizing nesting previous with
  | nil => simp
  | cons character later inductionHypothesis =>
      rw [Nesting.shows_cons, Bool.or_eq_false_iff] at hidden
      have goesOn :
          ¬(nesting.seesTop character && stop previous character (later ++ rest)) = true := by
        intro stops
        obtain ⟨sees, stopsHere⟩ := Bool.and_eq_true_iff.mp stops
        rw [Nesting.isTop_of_seesTop sees, only _ _ _ stopsHere] at hidden
        exact absurd hidden.1 (by decide)
      rw [List.cons_append, go, if_neg goesOn, inductionHypothesis hidden.2, Option.map_map,
        getLast?_cons_or]
      rfl

/-- A cut of a text that goes on is made in the text or behind it, if the place of a cut is told by
what the text holds. -/
theorem cutWhere.go_append_eq_or {stop : Option Char → Char → Text → Bool} {rest : Text}
    (stable : ∀ previous character following,
      stop previous character (following ++ rest) = stop previous character following)
    (nesting : Nesting) (previous : Option Char) (text : Text) :
    go stop nesting previous (text ++ rest) =
      ((go stop nesting previous text).map fun cut =>
        { cut with following := cut.following ++ rest }).or
      ((go stop (nesting.afterText text) (text.getLast?.or previous) rest).map fun cut =>
        { cut with before := text ++ cut.before }) := by
  induction text generalizing nesting previous with
  | nil => simp [go]
  | cons character later inductionHypothesis =>
      rw [List.cons_append, go, go, stable, getLast?_cons_or, Nesting.afterText_cons,
        inductionHypothesis]
      split
      · rfl
      · cases go stop (nesting.after character) (some character) later with
        | some cut => rfl
        | none =>
            rw [Option.map_none, Option.none_or, Option.map_none, Option.map_none, Option.none_or,
              Option.map_map]
            rfl

theorem cutWhere_append_eq_or {stop : Option Char → Char → Text → Bool} {rest : Text}
    (stable : ∀ previous character following,
      stop previous character (following ++ rest) = stop previous character following)
    {text : Text} (atTop : ({} : Nesting).afterText text = {}) :
    (text ++ rest).cutWhere stop =
      ((text.cutWhere stop).map fun cut => { cut with following := cut.following ++ rest }).or
      ((cutWhere.go stop {} text.getLast? rest).map fun cut =>
        { cut with before := text ++ cut.before }) := by
  rw [cutWhere, cutWhere.go_append_eq_or stable, atTop, Option.or_none, ← cutWhere]

/-- A cut is made where the reader sees top level. -/
theorem cutWhere.seesTop_of_go {stop : Option Char → Char → Text → Bool} {nesting : Nesting}
    {previous : Option Char} {text : Text} {cut : Cut}
    (found : go stop nesting previous text = some cut) :
    (nesting.afterText cut.before).seesTop cut.mark = true := by
  induction text generalizing nesting previous cut with
  | nil => contradiction
  | cons character rest inductionHypothesis =>
      rw [go] at found
      split at found
      · next stops =>
          cases found
          exact (Bool.and_eq_true_iff.mp stops).1
      · obtain ⟨inner, later, rfl⟩ := Option.map_eq_some_iff.mp found
        exact @inductionHypothesis (nesting.after character) (some character) inner later

theorem atTop_of_cutWhere {stop : Option Char → Char → Text → Bool} {text : Text} {cut : Cut}
    (found : text.cutWhere stop = some cut) : ({} : Nesting).afterText cut.before = {} :=
  Nesting.isTop_iff.mp (Nesting.isTop_of_seesTop (cutWhere.seesTop_of_go found))

theorem cutWhere.go_eq_none_of_hidden {stop : Option Char → Char → Text → Bool}
    (only : ∀ previous character rest, stop previous character rest = true →
      wanted character = true)
    {nesting : Nesting} (previous : Option Char) {text : Text}
    (hidden : nesting.shows wanted text = false) : go stop nesting previous text = none := by
  have passed : go stop nesting previous (text ++ []) = Option.map _ none :=
    go_append_of_hidden only hidden []
  rwa [List.append_nil] at passed

/-- A text that shows no character at which it could be cut is not cut. -/
theorem cutWhere_of_hidden {stop : Option Char → Char → Text → Bool}
    (only : ∀ previous character rest, stop previous character rest = true →
      wanted character = true)
    {text : Text} (hidden : ({} : Nesting).shows wanted text = false) :
    text.cutWhere stop = none :=
  cutWhere.go_eq_none_of_hidden only none hidden

/-- A text is cut at the first place that it shows where it can be cut. -/
theorem cutWhere_append_of_hidden {stop : Option Char → Char → Text → Bool}
    (only : ∀ previous character rest, stop previous character rest = true →
      wanted character = true)
    {front following : Text} {mark : Char} (hidden : ({} : Nesting).shows wanted front = false)
    (atTop : ({} : Nesting).afterText front = {}) (plain : isPlain mark = true)
    (stops : stop front.getLast? mark following = true) :
    (front ++ mark :: following).cutWhere stop = some { before := front, mark, following } := by
  have passed :=
    @cutWhere.go_append_of_hidden wanted stop only {} none front hidden (mark :: following)
  have isCut : (({} : Nesting).seesTop mark && stop front.getLast? mark following) = true := by
    simp [Nesting.seesTop, Nesting.isTop, plain, stops]
  rw [cutWhere, passed, atTop, Option.or_none, cutWhere.go, if_pos isCut]
  simp

theorem cutWhere_append_of_sealed {stop : Option Char → Char → Text → Bool}
    (only : ∀ previous character rest, stop previous character rest = true →
      wanted character = true)
    {front following : Text} {mark : Char} (sealed : Seals wanted front)
    (plain : isPlain mark = true) (stops : stop front.getLast? mark following = true) :
    (front ++ mark :: following).cutWhere stop = some { before := front, mark, following } :=
  cutWhere_append_of_hidden only sealed.hides sealed.reads.2 plain stops

/-- A text that shows no character of a class is not cut at one. -/
theorem cutAtAny_eq_none {text : Text} (hidden : ({} : Nesting).shows wanted text = false) :
    text.cutAtAny wanted = none :=
  @cutWhere_of_hidden wanted (fun _ character _ => wanted character) (fun _ _ _ stops => stops)
    text hidden

/-- A text is cut at the first character of a class that it shows. -/
theorem cutAtAny_append {front : Text} {mark : Char} {following : Text}
    (sealed : Seals wanted front) (plain : isPlain mark = true) (isWanted : wanted mark = true) :
    (front ++ mark :: following).cutAtAny wanted = some { before := front, mark, following } :=
  @cutWhere_append_of_sealed wanted (fun _ character _ => wanted character)
    (fun _ _ _ stops => stops) front following mark sealed plain isWanted

/-! ## Splits -/

theorem splitAt.go_ne_nil (separator : Char) (nesting : Nesting) (text : Text) :
    go separator nesting text ≠ [] := by
  cases text with
  | nil => simp [go]
  | cons character rest =>
      rw [go]
      split
      · simp
      · split <;> simp

/-- A split goes past a text that does not show the separator. -/
theorem splitAt.go_append_of_hidden {separator : Char} {nesting : Nesting} {front : Text}
    (hidden : nesting.shows (· == separator) front = false) (rest : Text) :
    go separator nesting (front ++ rest) =
      (go separator (nesting.afterText front) rest).modifyHead (front ++ ·) := by
  induction front generalizing nesting with
  | nil =>
      cases pieces : go separator nesting rest with
      | nil => exact absurd pieces (go_ne_nil separator nesting rest)
      | cons piece others => simp [pieces]
  | cons character later inductionHypothesis =>
      rw [Nesting.shows_cons, Bool.or_eq_false_iff] at hidden
      have goesOn : (nesting.seesTop character && character == separator) = false := by
        rw [Nesting.seesTop, Bool.and_right_comm, hidden.1, Bool.false_and]
      rw [List.cons_append, go, goesOn, inductionHypothesis hidden.2, Nesting.afterText_cons]
      cases pieces : go separator ((nesting.after character).afterText later) rest with
      | nil => exact absurd pieces (go_ne_nil separator _ rest)
      | cons piece others => rfl

/-- A text that does not show the separator is one piece. -/
theorem splitAt_of_hidden {separator : Char} {text : Text}
    (hidden : ({} : Nesting).shows (· == separator) text = false) :
    text.splitAt separator = [text] := by
  have passed := splitAt.go_append_of_hidden hidden []
  rw [List.append_nil] at passed
  rw [splitAt, passed]
  simp [splitAt.go]

/-- A separator at top level divides the pieces before it from those behind it. -/
theorem splitAt_append {separator : Char} {front : Text} (rest : Text)
    (hidden : ({} : Nesting).shows (· == separator) front = false)
    (atTop : ({} : Nesting).afterText front = {}) (plain : isPlain separator = true) :
    (front ++ separator :: rest).splitAt separator = front :: rest.splitAt separator := by
  rw [splitAt, splitAt.go_append_of_hidden hidden, atTop, splitAt.go,
    (@after_of_isPlain {} separator rfl plain).2]
  simp [Nesting.seesTop, Nesting.isTop, plain, splitAt]

/-- A text does not show the separator, or it has a first one. -/
theorem hidden_or_first (separator : Char) (nesting : Nesting) (text : Text) :
    nesting.shows (· == separator) text = false ∨
      ∃ front rest, text = front ++ separator :: rest ∧
        nesting.shows (· == separator) front = false ∧ nesting.afterText front = {} := by
  induction text generalizing nesting with
  | nil => exact .inl rfl
  | cons character later inductionHypothesis =>
      by_cases here : (nesting.isTop && character == separator) = true
      · obtain ⟨isTop, isSeparator⟩ := Bool.and_eq_true_iff.mp here
        refine .inr ⟨[], later, by rw [eq_of_beq isSeparator]; rfl, rfl, ?_⟩
        exact Nesting.isTop_iff.mp isTop
      · rw [Bool.not_eq_true] at here
        rcases inductionHypothesis (nesting.after character) with
          hidden | ⟨front, rest, rfl, hidden, atTop⟩
        · exact .inl (by rw [Nesting.shows_cons, here, hidden]; rfl)
        · exact .inr ⟨character :: front, rest, rfl,
            by rw [Nesting.shows_cons, here, hidden]; rfl, atTop⟩

/-- A text that is not cut at a sign does not show it. -/
theorem hidden_of_cutAt_eq_none {sign : Char} (plain : isPlain sign = true) {text : Text}
    (uncut : text.cutAt sign = none) : ({} : Nesting).shows (· == sign) text = false := by
  rcases hidden_or_first sign {} text with hidden | ⟨front, rest, rfl, hidden, atTop⟩
  · exact hidden
  · have found : (front ++ sign :: rest).cutAt sign =
        some { before := front, mark := sign, following := rest } :=
      @cutWhere_append_of_hidden (· == sign) (fun _ character _ => character == sign)
        (fun _ _ _ stops => stops) front rest sign hidden atTop plain (beq_self_eq_true sign)
    rw [uncut] at found
    contradiction

/-- A text is cut at the first of a sign, or behind it where that is not at top level. -/
theorem cutAt_append_cons {sign : Char} {front rest : Text}
    (hidden : ({} : Nesting).shows (· == sign) front = false) {cut : Cut}
    (found : (front ++ sign :: rest).cutAt sign = some cut) :
    ({} : Nesting).afterText front = {} ∧
        cut = { before := front, mark := sign, following := rest } ∨
      ∃ more, cut.before = front ++ sign :: more := by
  have passed := @cutWhere.go_append_of_hidden (· == sign) (fun _ character _ => character == sign)
    (fun _ _ _ stops => stops) {} none front hidden (sign :: rest)
  rw [cutAt, cutAtAny, cutWhere, passed, cutWhere.go] at found
  obtain ⟨behind, isBehind, rfl⟩ := Option.map_eq_some_iff.mp found
  split at isBehind
  · next stops =>
      cases isBehind
      have isTop := Nesting.isTop_of_seesTop (Bool.and_eq_true_iff.mp stops).1
      exact .inl ⟨Nesting.isTop_iff.mp isTop, by rw [List.append_nil]⟩
  · obtain ⟨later, _, rfl⟩ := Option.map_eq_some_iff.mp isBehind
    exact .inr ⟨later.before, rfl⟩

end Text

end SchemaMarkup
