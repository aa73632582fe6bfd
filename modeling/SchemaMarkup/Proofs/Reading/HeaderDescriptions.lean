import SchemaMarkup.Grammar.Header
import SchemaMarkup.Proofs.Reading.BalancedHeaders
import SchemaMarkup.Proofs.Reading.CallLists
import SchemaMarkup.Proofs.Reading.SealedLines
import SchemaMarkup.Proofs.Text.OuterBlanks

/-!
# Descriptions of headers

The description of a header stands before its attributes or behind them. A kind mark is taken out of
the head or out of the attributes, whichever shows one first, and leaves the description alone. The
attributes are read alike with and without a blank behind them, so both headers are read alike, and
their description is what stands behind the `#` (`HeaderParts.read_leading`).
-/

namespace SchemaMarkup

open Text

namespace Text

/-! ## Blanks behind calls -/

section Blanks

variable {blanks : Text} (blank : ∀ character ∈ blanks, isBlank character = true)
include blank

theorem not_mem_of_blank {sign : Char} (filled : isBlank sign = false) : sign ∉ blanks :=
  fun listed => absurd ((blank sign listed).symm.trans filled) (by decide)

/-- Blanks behind a group stand behind it. -/
theorem readGroup_append_blank (text : Text) :
    readGroup '(' (text ++ blanks) =
      (readGroup '(' text).map fun read => (read.1, read.2 ++ blanks) := by
  cases isRead : readGroup '(' text with
  | some read =>
      obtain ⟨balanced, rfl⟩ := (readGroup_eq_some_iff rfl).mp isRead
      exact (readGroup_eq_some_iff rfl).mpr ⟨balanced, by simp⟩
  | none =>
      cases isReadToo : readGroup '(' (text ++ blanks) with
      | none => rfl
      | some read =>
          -- The bracket that closes the group is no blank, so it stands in the text.
          obtain ⟨balanced, whole⟩ := (readGroup_eq_some_iff rfl).mp isReadToo
          obtain ⟨later, inText⟩ :=
            exists_of_not_mem_right (not_mem_of_blank blank (by decide)) whole
          rw [(readGroup_eq_some_iff rfl).mpr ⟨balanced, inText⟩] at isRead
          contradiction

/-- Blanks behind a call stand behind it. -/
theorem readCall?_append_blank (text : Text) :
    readCall? (text ++ blanks) =
      text.readCall?.map fun read => (read.1, read.2 ++ blanks) := by
  have noName : ∀ next, blanks.head? = some next → isNameCharacter next = false :=
    fun next starts => not_isNameCharacter_of_isBlank (blank next (List.mem_of_head? starts))
  obtain ⟨taken, dropped⟩ := span_append text noName
  simp only [readCall?_eq, taken, dropped]
  split
  · rfl
  · cases behind : text.dropWhile isNameCharacter with
    | nil =>
        rw [List.nil_append]
        split
        · exact absurd (blank '(' List.mem_cons_self) (by decide)
        · rfl
    | cons next later =>
        by_cases opens : next = '('
        · subst opens
          simp only [List.cons_append, readGroup_append_blank blank]
          cases readGroup '(' later <;> rfl
        · rw [List.cons_append]
          split
          · next group same => exact absurd (List.cons.inj same).1 opens
          · split
            · next group same => exact absurd (List.cons.inj same).1 opens
            · rfl

/-- Blanks behind a run of calls have no part in its calls. -/
theorem readCallRun_append_blank (text : Text) {Fault : Type} (fault : Fault) :
    (readCallRun (text ++ blanks)).mapError (fun _ => fault) =
      text.readCallRun.mapError fun _ => fault := by
  have separates : ∀ character ∈ blanks, isCallSeparator character = true := by
    intro character listed
    rw [isCallSeparator, blank character listed, Bool.or_true]
  have dropped : ∀ {text : Text} {first : Char} {rest : Text},
      text.dropWhile isCallSeparator = first :: rest →
      (text ++ blanks).dropWhile isCallSeparator = first :: (rest ++ blanks) := by
    intro text first rest starts
    rw [List.dropWhile_append, starts]
    rfl
  fun_induction readCallRun text
  case case1 text none =>
    rw [readCallRun_of_separators]
    rw [List.dropWhile_append, none, List.dropWhile_eq_nil_iff.mpr separates]
    rfl
  case case2 text rest separated call following called _ inductionHypothesis =>
    rw [readCallRun_of_sign (dropped separated), readCall?_append_blank blank, called, mapError_map,
      ← inductionHypothesis, ← mapError_map]
    rfl
  case case3 text rest separated noCall =>
    rw [readCallRun_of_sign (dropped separated), readCall?_append_blank blank, noCall]
    rfl
  case case4 text filled noSign =>
    obtain ⟨first, rest, starts⟩ := List.exists_cons_of_ne_nil filled
    have other : first ≠ '@' := by
      rintro rfl
      exact noSign rest starts
    rw [readCallRun_of_stray other (dropped starts)]
    rfl

/-- Blanks behind the attributes of a line have no part in them, nor in the code of their fault. -/
theorem callRun_append_blank (text : Text) :
    (asLineFault (callRun (text ++ blanks))).mapError LineFault.code =
      (asLineFault text.callRun).mapError LineFault.code := by
  -- The code of a refusal says whether the text is balanced, and nothing more.
  have code_only : ∀ text : Text, (asLineFault text.callRun).mapError LineFault.code =
      text.readCallRun.mapError fun _ => (LineFault.malformed (text.refusal [])).code := by
    intro text
    rw [callRun]
    cases text.readCallRun with
    | ok calls => rfl
    | error rest =>
        simp only [asLineFault, Except.mapError, refusal]
        cases text.checkBalance <;> rfl
  have sameCode : (LineFault.malformed (refusal (text ++ blanks) [])).code =
      (LineFault.malformed (text.refusal [])).code := by
    simp only [refusal, checkBalance_append_blank text blank]
    cases text.checkBalance <;> rfl
  rw [code_only, code_only, sameCode, readCallRun_append_blank blank]

end Blanks

end Text

namespace Header

/-! ## Kind marks -/

/-- Where the kind mark of a header starts. -/
def startsMark (_ : Option Char) (character : Char) (following : Text) : Bool :=
  character == ':' && following.head? == some ':'

theorem splitKindMark_eq (text : Text) :
    splitKindMark text = match text.cutWhere startsMark with
      | none => .ok (text, none)
      | some cut =>
          match KindMark.read? (cut.following.tail.takeWhile Char.isAlphanum) with
          | some mark =>
              .ok (cut.before ++ ' ' :: cut.following.tail.dropWhile Char.isAlphanum, some mark)
          | none => .error
              (.unknownKindMark (String.ofList (cut.following.tail.takeWhile Char.isAlphanum))) :=
  rfl

/-- A text that starts no kind mark leaves those in front of it alone. -/
theorem startsMark_append {rest : Text} (ends : rest.head? ≠ some ':') (previous : Option Char)
    (character : Char) (following : Text) :
    startsMark previous character (following ++ rest) =
      startsMark previous character following := by
  cases following with
  | nil => simp [startsMark, ends]
  | cons next later => rfl

/-- A kind mark is taken out of the first part of a header if that has one. -/
theorem splitKindMark_append_of_marked {left right : Text}
    (atTop : ({} : Nesting).afterText left = {})
    (ends : ∀ next, right.head? = some next → next ≠ ':' ∧ next.isAlphanum = false)
    (marked : left.cutWhere startsMark ≠ none) :
    splitKindMark (left ++ right) =
      (splitKindMark left).map fun read => (read.1 ++ right, read.2) := by
  obtain ⟨cut, found⟩ := Option.ne_none_iff_exists'.mp marked
  have foundToo : (left ++ right).cutWhere startsMark =
      some { cut with following := cut.following ++ right } := by
    rw [cutWhere_append_eq_or (startsMark_append fun starts => (ends _ starts).1 rfl) atTop, found]
    rfl
  obtain ⟨_, stops⟩ := stop_of_cutWhere found
  obtain ⟨_, follows⟩ := Bool.and_eq_true_iff.mp stops
  obtain ⟨tail, following⟩ := List.head?_eq_some_iff.mp (eq_of_beq follows)
  obtain ⟨word, rest⟩ :=
    @span_append Char.isAlphanum tail right fun next starts => (ends next starts).2
  rw [splitKindMark_eq, splitKindMark_eq, foundToo, found]
  simp only [following, List.tail_cons, List.cons_append, word, rest]
  cases KindMark.read? (tail.takeWhile Char.isAlphanum) with
  | none => rfl
  | some mark => simp [Except.map]

/-- A kind mark is taken out of the second part of a header if the first one has none. -/
theorem splitKindMark_append_of_unmarked {left right : Text}
    (atTop : ({} : Nesting).afterText left = {}) (ends : right.head? ≠ some ':')
    (unmarked : left.cutWhere startsMark = none) :
    splitKindMark (left ++ right) =
      (splitKindMark right).map fun read => (left ++ read.1, read.2) := by
  have found : (left ++ right).cutWhere startsMark =
      (right.cutWhere startsMark).map fun cut => { cut with before := left ++ cut.before } := by
    rw [cutWhere_append_eq_or (startsMark_append ends) atTop, unmarked, Option.map_none,
      Option.none_or, cutWhere.go_unseen (fun _ _ _ _ => rfl) {} _ none]
    rfl
  rw [splitKindMark_eq, splitKindMark_eq, found]
  cases right.cutWhere startsMark with
  | none => rfl
  | some cut =>
      simp only [Option.map_some]
      cases KindMark.read? (cut.following.tail.takeWhile Char.isAlphanum) with
      | none => rfl
      | some mark => simp [Except.map]

theorem unmarked_of_seals {text : Text} (sealed : Seals (· == ':') text) :
    text.cutWhere startsMark = none :=
  @cutWhere_of_hidden (· == ':') startsMark
    (fun _ _ _ stops => (Bool.and_eq_true_iff.mp stops).1) text sealed.hides

/-- A second part without a kind mark is left as it is. -/
theorem splitKindMark_append_unmarked {left right : Text}
    (atTop : ({} : Nesting).afterText left = {})
    (ends : ∀ next, right.head? = some next → next ≠ ':' ∧ next.isAlphanum = false)
    (unmarked : right.cutWhere startsMark = none) :
    splitKindMark (left ++ right) =
      (splitKindMark left).map fun read => (read.1 ++ right, read.2) := by
  by_cases marked : left.cutWhere startsMark = none
  · rw [splitKindMark_append_of_unmarked atTop (fun starts => (ends _ starts).1 rfl) marked,
      splitKindMark_eq, splitKindMark_eq, unmarked, marked]
    rfl
  · exact splitKindMark_append_of_marked atTop ends marked

/-- The kind mark of a header does not stand where the header starts with another sign. -/
theorem starts_of_splitKindMark {text marked : Text} {mark : Option KindMark} {first : Char}
    (other : first ≠ ':') (starts : text.head? = some first)
    (isSplit : splitKindMark text = .ok (marked, mark)) : marked.head? = some first := by
  rw [splitKindMark_eq] at isSplit
  split at isSplit
  · cases isSplit
    exact starts
  · next cut found =>
      split at isSplit
      · cases isSplit
        have whole := cutWhere_append found
        have isColon : cut.mark = ':' := by
          obtain ⟨_, stops⟩ := stop_of_cutWhere found
          exact eq_of_beq (Bool.and_eq_true_iff.mp stops).1
        cases before : cut.before with
        | nil =>
            rw [before, List.nil_append] at whole
            rw [← whole, List.head?_cons, isColon, Option.some.injEq] at starts
            exact absurd starts.symm other
        | cons character later =>
            rw [← whole, before, List.cons_append, List.head?_cons] at starts
            rw [List.cons_append, List.head?_cons, starts]
      · contradiction

/-! ## Parts of a header -/

/-- Reads a header from its parts: the mark of its kind, the text in front of the attributes, the
attributes, and the description behind a `#`. -/
def readParts (dialect : Dialect) (mark : Option KindMark) (head region : Text)
    (described : Option String) : Except LineFault Header := do
  let (region, quotedBehind) := region.takeTrailingQuoted
  asLineFault region.checkBalance
  let attributes <- asLineFault region.callRun
  asLineFault head.checkBalance
  let (head, quotedBefore) := head.takeTrailingQuoted
  let (named, parents) :=
    match head.cutAt ':' with
    | some cut => (cut.before, cut.following.pieces ',')
    | none => (head, [])
  match named.splitNameLabel? with
  | none => throw (.invalidEntityName (String.ofList named.trim))
  | some (name, label) =>
      let inherits <- parents.mapM readParent
      let kind <- dialect.entityKind name mark
      return {
        kind, name, label, inherits, attributes
        description := (described.or quotedBehind).or quotedBefore }

theorem read_eq_readParts (dialect : Dialect) (text : Text) :
    Header.read dialect text = (do
      let (text, mark) <- splitKindMark text
      let (head, region) := splitAttributes text
      readParts dialect mark head.splitDescription.1 region.splitDescription.1
        (region.splitDescription.2.or head.splitDescription.2)) :=
  rfl

/-- Blanks behind the attributes have no part in a header, nor in the code of its fault. -/
theorem readParts_append_blank (dialect : Dialect) (mark : Option KindMark) (head region : Text)
    (described : Option String) {blanks : Text}
    (blank : ∀ character ∈ blanks, isBlank character = true) :
    (readParts dialect mark head (region ++ blanks) described).mapError LineFault.code =
      (readParts dialect mark head region described).mapError LineFault.code := by
  rcases takeTrailingQuoted_append_blank region blank with same | ⟨unquoted, unquotedToo⟩
  · rw [readParts, readParts, same]
  · simp only [readParts, unquoted, unquotedToo, mapError_bind,
      checkBalance_append_blank region blank, callRun_append_blank blank]

/-- The description behind a `#` goes before all others. -/
theorem description_of_readParts {dialect : Dialect} {mark : Option KindMark} {head region : Text}
    {description : String} {header : Header}
    (isRead : readParts dialect mark head region (some description) = .ok header) :
    header.description = some description := by
  simp only [readParts, bind_eq_ok_iff] at isRead
  obtain ⟨_, _, attributes, _, _, _, isRead⟩ := isRead
  split at isRead
  · simp only [throw_eq_ok_iff] at isRead
  · simp only [bind_eq_ok_iff, pure_eq_ok_iff] at isRead
    obtain ⟨_, _, _, _, rfl⟩ := isRead
    rfl

end Header

/-! ## Headers as they are written -/

/-- What is written as a header: its name and parents, its attributes, and its description. -/
structure HeaderParts where
  head : Text
  run : Text
  description : Text

namespace HeaderParts

open Header

/-- The description behind its sign. -/
def remark (parts : HeaderParts) : Text :=
  ' ' :: '#' :: parts.description

/-- The header with its description before the attributes. -/
def leading (parts : HeaderParts) : Text :=
  parts.head ++ (parts.remark ++ ' ' :: parts.run)

/-- The header with its description behind the attributes. -/
def trailing (parts : HeaderParts) : Text :=
  parts.head ++ ' ' :: (parts.run ++ parts.remark)

/-- The head holds no attributes, neither head nor attributes hold a description, both are balanced,
and the description is plain text without signs. -/
structure WellFormed (parts : HeaderParts) : Prop where
  noSign : '@' ∉ parts.head
  noHash : '#' ∉ parts.head
  balanced : parts.head.isBalanced = true
  starts : parts.run.head? = some '@'
  noHashBehind : '#' ∉ parts.run
  balancedBehind : parts.run.isBalanced = true
  plain : ∀ character ∈ parts.description,
    isPlain character = true ∧ character ∉ ['@', '#', ':']
  filled : parts.description.trim ≠ []

/-- The parts without the kind mark. -/
def splitMark (parts : HeaderParts) : Except LineFault (HeaderParts × Option KindMark) :=
  if parts.head.cutWhere startsMark = none then
    (splitKindMark parts.run).map fun read => ({ parts with run := read.1 }, read.2)
  else
    (splitKindMark parts.head).map fun read => ({ parts with head := read.1 }, read.2)

namespace WellFormed

variable {parts : HeaderParts} (wellFormed : parts.WellFormed)
include wellFormed

/-- The description shows no sign of attributes and none of a kind mark. -/
theorem seals_remark {sign : Char} (isSign : sign ∈ ['@', ':']) :
    Seals (· == sign) parts.remark := by
  have apart := List.all_eq_true.mp (show ['@', ':'].all (fun sign => ' ' != sign && '#' != sign &&
    ['@', '#', ':'].contains sign) = true by decide) sign isSign
  simp only [Bool.and_eq_true, bne_iff_ne, List.contains_iff_mem] at apart
  refine .cons (by decide) (by simp [apart.1.1]) (.cons (by decide) (by simp [apart.1.2]) ?_)
  refine seals_of_plain fun character listed => ?_
  obtain ⟨isPlainHere, noSign⟩ := wellFormed.plain character listed
  refine ⟨isPlainHere, ?_⟩
  rw [beq_eq_false_iff_ne]
  rintro rfl
  exact noSign apart.2

theorem atTop : ({} : Nesting).afterText parts.head = {} :=
  (isBalanced_iff.mp wellFormed.balanced).2

theorem atTop_behind : ({} : Nesting).afterText parts.run = {} :=
  (isBalanced_iff.mp wellFormed.balancedBehind).2

/-- The kind mark is taken out of the parts, wherever the description stands. -/
theorem splitKindMark_leading :
    splitKindMark parts.leading = parts.splitMark.map fun read => (read.1.leading, read.2) := by
  have sealed : Seals (· == ':') (parts.remark ++ [' ']) :=
    (wellFormed.seals_remark (by decide)).append (.cons (by decide) (by decide) .nil)
  have behindRemark : splitKindMark (parts.remark ++ ' ' :: parts.run) =
      (splitKindMark parts.run).map fun read => (parts.remark ++ ' ' :: read.1, read.2) := by
    have passed := @splitKindMark_append_of_unmarked _ parts.run sealed.reads.2
      (by rw [wellFormed.starts]; decide) (unmarked_of_seals sealed)
    simpa using passed
  rw [leading, splitMark]
  split
  · next unmarked =>
      rw [splitKindMark_append_of_unmarked wellFormed.atTop (by simp [remark]) unmarked,
        behindRemark]
      cases splitKindMark parts.run <;> rfl
  · next marked =>
      rw [splitKindMark_append_of_marked wellFormed.atTop (by rintro _ ⟨⟩; decide) marked]
      cases splitKindMark parts.head <;> rfl

theorem splitKindMark_trailing :
    splitKindMark parts.trailing = parts.splitMark.map fun read => (read.1.trailing, read.2) := by
  have beforeRemark : splitKindMark (parts.run ++ parts.remark) =
      (splitKindMark parts.run).map fun read => (read.1 ++ parts.remark, read.2) :=
    splitKindMark_append_unmarked wellFormed.atTop_behind (by rintro _ ⟨⟩; decide)
      (unmarked_of_seals (wellFormed.seals_remark (by decide)))
  have starts : (parts.run ++ parts.remark).head? = some '@' := by
    rw [List.head?_append, wellFormed.starts]
    rfl
  have behindBlank : splitKindMark (' ' :: (parts.run ++ parts.remark)) =
      (splitKindMark (parts.run ++ parts.remark)).map fun read => (' ' :: read.1, read.2) :=
    @splitKindMark_append_of_unmarked [' '] (parts.run ++ parts.remark) (by decide)
      (by rw [starts]; decide) (by decide)
  rw [trailing, splitMark]
  split
  · next unmarked =>
      rw [splitKindMark_append_of_unmarked wellFormed.atTop (by simp) unmarked, behindBlank,
        beforeRemark]
      cases splitKindMark parts.run <;> rfl
  · next marked =>
      rw [splitKindMark_append_of_marked wellFormed.atTop (by rintro _ ⟨⟩; decide) marked]
      cases splitKindMark parts.head <;> rfl

/-- The parts are well-formed without the kind mark, and the description is the same. -/
theorem of_splitMark {marked : HeaderParts} {mark : Option KindMark}
    (isSplit : parts.splitMark = .ok (marked, mark)) :
    marked.WellFormed ∧ marked.description = parts.description := by
  have kept : ∀ {text rest : Text} {sign : Char}, sign ≠ ' ' → sign ∉ text →
      (∀ character, character ∈ rest → character = ' ' ∨ character ∈ text) → sign ∉ rest :=
    fun other absent within listed => (within _ listed).elim other absent
  rw [splitMark] at isSplit
  split at isSplit
  · obtain ⟨⟨run, _⟩, isRun, same⟩ := map_eq_ok_iff.mp isSplit
    cases same
    obtain ⟨alike, within⟩ := readsLike_of_splitKindMark isRun
    exact ⟨{ wellFormed with
      starts := starts_of_splitKindMark (by decide) wellFormed.starts isRun
      noHashBehind := kept (by decide) wellFormed.noHashBehind within
      balancedBehind := alike.isBalanced_iff.mp wellFormed.balancedBehind }, rfl⟩
  · obtain ⟨⟨head, _⟩, isHead, same⟩ := map_eq_ok_iff.mp isSplit
    cases same
    obtain ⟨alike, within⟩ := readsLike_of_splitKindMark isHead
    exact ⟨{ wellFormed with
      noSign := kept (by decide) wellFormed.noSign within
      noHash := kept (by decide) wellFormed.noHash within
      balanced := alike.isBalanced_iff.mp wellFormed.balanced }, rfl⟩

/-! ### Descriptions -/

/-- The attributes start behind the head, and the description stays with the part that it stands
in. -/
theorem splitAttributes_leading :
    splitAttributes parts.leading = (parts.head ++ (parts.remark ++ [' ']), parts.run) := by
  obtain ⟨later, isRun⟩ := List.head?_eq_some_iff.mp wellFormed.starts
  have sealed : Seals (· == '@') (parts.head ++ (parts.remark ++ [' '])) :=
    (seals_of_not_mem wellFormed.balanced wellFormed.noSign).append
      ((wellFormed.seals_remark (by decide)).append (.cons (by decide) (by decide) .nil))
  have found := @cutAtAny_append (· == '@') _ '@' later sealed (by decide) (by decide)
  have whole : parts.head ++ (parts.remark ++ [' ']) ++ '@' :: later = parts.leading := by
    simp [leading, isRun]
  rw [whole] at found
  rw [splitAttributes, cutAt, found, isRun]

theorem splitAttributes_trailing :
    splitAttributes parts.trailing = (parts.head ++ [' '], parts.run ++ parts.remark) := by
  obtain ⟨later, isRun⟩ := List.head?_eq_some_iff.mp wellFormed.starts
  have sealed : Seals (· == '@') (parts.head ++ [' ']) :=
    (seals_of_not_mem wellFormed.balanced wellFormed.noSign).append
      (.cons (by decide) (by decide) .nil)
  have found := @cutAtAny_append (· == '@') _ '@' (later ++ parts.remark) sealed (by decide)
    (by decide)
  have whole : parts.head ++ [' '] ++ '@' :: (later ++ parts.remark) = parts.trailing := by
    simp [trailing, isRun]
  rw [whole] at found
  rw [splitAttributes, cutAt, found, isRun]
  rfl

/-- The description is taken off a part that holds no other `#`. -/
theorem splitDescription_remark {front blanks : Text} (noHash : '#' ∉ front)
    (balanced : front.isBalanced = true)
    (blank : ∀ character ∈ blanks, isBlank character = true) :
    splitDescription (front ++ (parts.remark ++ blanks)) =
      (front ++ [' '], some (String.ofList parts.description.trim)) := by
  have noRun : (parts.description ++ blanks).head? ≠ some '#' := by
    intro starts
    rcases List.mem_append.mp (List.mem_of_head? starts) with inDescription | inBlanks
    · exact (wellFormed.plain '#' inDescription).2 (by decide)
    · exact not_mem_of_blank blank (by decide) inBlanks
  have trimmed : trim (parts.description ++ blanks) = parts.description.trim :=
    trim_append_blank _ blank
  have found := splitDescription_append_hash (seals_of_not_mem balanced noHash) noRun
  rw [nonBlank?_of_filled (by rw [trimmed]; exact wellFormed.filled), trimmed] at found
  exact found

end WellFormed

/-- A header is read alike with its description before the attributes and behind them, and that is
its description. -/
theorem read_leading {parts : HeaderParts} (wellFormed : parts.WellFormed) (dialect : Dialect) :
    (Header.read dialect parts.leading).mapError LineFault.code =
        (Header.read dialect parts.trailing).mapError LineFault.code ∧
      ∀ header, Header.read dialect parts.leading = .ok header →
        header.description = some (String.ofList parts.description.trim) := by
  rw [read_eq_readParts, read_eq_readParts, wellFormed.splitKindMark_leading,
    wellFormed.splitKindMark_trailing]
  cases isSplit : parts.splitMark with
  | error fault => exact ⟨rfl, nofun⟩
  | ok read =>
      obtain ⟨marked, mark⟩ := read
      obtain ⟨markedWellFormed, sameDescription⟩ := wellFormed.of_splitMark isSplit
      have inHead := markedWellFormed.splitDescription_remark markedWellFormed.noHash
        markedWellFormed.balanced isBlank_of_mem_space
      have inRegion := @WellFormed.splitDescription_remark _ markedWellFormed marked.run []
        markedWellFormed.noHashBehind markedWellFormed.balancedBehind (by simp)
      rw [List.append_nil] at inRegion
      have noHash : '#' ∉ marked.head ++ [' '] := by
        simp [markedWellFormed.noHash]
      simp only [Except.map, bind, Except.bind, markedWellFormed.splitAttributes_leading,
        markedWellFormed.splitAttributes_trailing, inHead, inRegion,
        splitDescription_of_not_mem markedWellFormed.noHashBehind,
        splitDescription_of_not_mem noHash, Option.none_or, Option.or_none, sameDescription]
      exact ⟨(readParts_append_blank dialect mark _ _ _ isBlank_of_mem_space).symm,
        fun header isRead => description_of_readParts isRead⟩

/-- A header with its kind mark between its attributes. -/
def markedOrder : HeaderParts where
  head := "Order(Total) : Base".toList
  run := "@table(\"a)b\", [x]) ::interface @audited".toList
  description := " all orders".toList

/-- The description of the header stands before its attributes or behind them. -/
theorem markedOrder_isRead :
    ∃ header,
      Header.read .current (String.toList ("Order(Total) : Base # all orders " ++
          "@table(\"a)b\", [x]) ::interface @audited")) = .ok header ∧
        Header.read .current (String.toList ("Order(Total) : Base " ++
          "@table(\"a)b\", [x]) ::interface @audited # all orders")) = .ok header ∧
        header.kind = .interface ∧ header.description = some "all orders" := by
  have wellFormed : markedOrder.WellFormed := {
    noSign := by decide
    noHash := by decide
    balanced := by decide +kernel
    starts := by decide
    noHashBehind := by decide
    balancedBehind := by decide +kernel
    plain := fun character listed => by
      simpa using List.all_eq_true.mp (show markedOrder.description.all (fun character =>
        isPlain character && !(['@', '#', ':'].contains character)) = true by decide) character listed
    filled := by decide }
  have succeeds : (Header.read .current markedOrder.leading).map Header.kind = .ok .interface := by
    decide +kernel
  obtain ⟨header, isRead, isInterface⟩ := map_eq_ok_iff.mp succeeds
  obtain ⟨sameRead, described⟩ := read_leading wellFormed .current
  have isReadToo : (Header.read .current markedOrder.trailing).mapError LineFault.code =
      .ok header := by
    rw [← sameRead, isRead]
    rfl
  exact ⟨header, isRead, mapError_eq_ok_iff.mp isReadToo, isInterface, described header isRead⟩

end HeaderParts

end SchemaMarkup
