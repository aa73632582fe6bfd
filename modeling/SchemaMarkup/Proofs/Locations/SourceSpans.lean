import SchemaMarkup.Proofs.Locations.SourceLines

/-!
# Spans of lines

Scanning loses nothing of a source: its lines and what stands between their spans make it up again
(`readLines_isLossless`). `Text.slice?` says what the bytes of a span hold. It holds nothing
where a span starts or ends inside of a character, so the spans of lines do neither.

The invariant of the scanner is `StandsFrom`: behind a part of the source, lines stand one behind
another up to its end, with a terminator between them. A span that is off by one byte breaks it
for all lines that follow.
-/

namespace SchemaMarkup

namespace Text

/-! ## Slices -/

/-- Divides a text at a byte offset, if that is where a character starts or the text ends. -/
def splitAtByte? (offset : Nat) : Text → Option (Text × Text)
  | [] => if offset = 0 then some ([], []) else none
  | character :: rest =>
      if offset = 0 then
        some ([], character :: rest)
      else if offset < character.utf8Size then
        none
      else
        (splitAtByte? (offset - character.utf8Size) rest).map fun (before, behind) =>
          (character :: before, behind)

theorem splitAtByte?_append (before behind : Text) :
    splitAtByte? before.byteLength (before ++ behind) = some (before, behind) := by
  induction before with
  | nil => cases behind <;> rfl
  | cons character rest inductionHypothesis =>
      have wide := character.utf8Size_pos
      rw [List.cons_append, byteLength_cons, splitAtByte?, if_neg (by omega), if_neg (by omega),
        Nat.add_sub_cancel_left, inductionHypothesis]
      rfl

theorem append_of_splitAtByte? {offset : Nat} {text before behind : Text}
    (divided : text.splitAtByte? offset = some (before, behind)) :
    text = before ++ behind ∧ before.byteLength = offset := by
  induction text generalizing offset before with
  | nil =>
      rw [splitAtByte?] at divided
      split at divided
      · next atStart =>
          cases divided
          exact ⟨rfl, atStart.symm⟩
      · contradiction
  | cons character rest inductionHypothesis =>
      rw [splitAtByte?] at divided
      split at divided
      · next atStart =>
          cases divided
          exact ⟨rfl, atStart.symm⟩
      · split at divided
        · contradiction
        · next wide =>
            simp only [Option.map_eq_some_iff, Prod.exists, Prod.mk.injEq] at divided
            obtain ⟨front, _, isLater, rfl, rfl⟩ := divided
            obtain ⟨rfl, length⟩ := inductionHypothesis isLater
            exact ⟨rfl, by rw [byteLength_cons, length]; omega⟩

/-- The text that the bytes of a span hold, if the span starts and ends between characters. -/
def slice? (source : Text) (span : Span) : Option Text :=
  if span.start ≤ span.stop then
    (source.splitAtByte? span.start).bind fun (_, behind) =>
      (behind.splitAtByte? (span.stop - span.start)).map Prod.fst
  else
    none

/-- A span holds a text exactly if the text stands at its bytes. -/
theorem slice?_eq_some_iff {source text : Text} {span : Span} :
    source.slice? span = some text ↔
      ∃ before behind, source = before ++ (text ++ behind) ∧
        span = { start := before.byteLength, stop := before.byteLength + text.byteLength } := by
  rw [slice?]
  constructor
  · intro holds
    split at holds
    · next ordered =>
        simp only [Option.bind_eq_some_iff, Option.map_eq_some_iff, Prod.exists] at holds
        obtain ⟨before, later, atStart, _, behind, atStop, rfl⟩ := holds
        obtain ⟨rfl, isStart⟩ := append_of_splitAtByte? atStart
        obtain ⟨rfl, isLength⟩ := append_of_splitAtByte? atStop
        refine ⟨before, behind, rfl, ?_⟩
        rw [isStart, isLength, Nat.add_sub_cancel' ordered]
    · contradiction
  · rintro ⟨before, behind, rfl, rfl⟩
    simp only [Nat.le_add_right, if_true, splitAtByte?_append, Option.bind_some,
      Nat.add_sub_cancel_left, Option.map_some]

end Text

/-! ## Lines behind one another -/

/-- The terminator of a line that others follow. -/
def IsLineEnd (terminator : Text) : Prop :=
  terminator = ['\n'] ∨ terminator = ['\r', '\n']

/-- What may stand behind the last line. -/
def IsSourceEnd (terminator : Text) : Prop :=
  terminator = [] ∨ terminator = ['\r']

/-- A line that stands behind a part of the source. -/
structure Line.StandsBehind (before : Text) (line : Line) : Prop where
  span : line.span = {
    start := before.byteLength
    stop := before.byteLength + line.raw.byteLength }
  single : '\n' ∉ line.raw

/-- Lines that stand one behind another and make up the rest of a source, with the terminators
behind them. -/
inductive StandsFrom : Text → Text → List Line → List Text → Prop where
  | last {before text terminator : Text} {line : Line} (stands : line.StandsBehind before)
      (whole : text = line.raw ++ terminator) (ends : IsSourceEnd terminator) :
      StandsFrom before text [line] [terminator]
  | next {before text terminator rest : Text} {line : Line} {later : List Line}
      {terminators : List Text} (stands : line.StandsBehind before)
      (whole : text = line.raw ++ (terminator ++ rest)) (ends : IsLineEnd terminator)
      (behind : StandsFrom (before ++ (line.raw ++ terminator)) rest later terminators) :
      StandsFrom before text (line :: later) (terminator :: terminators)

/-- The scanner goes over the lines of a text one behind another. -/
theorem exists_standsFrom (surrounding : Surrounding) (number : Nat) (before text : Text) :
    ∃ terminators, StandsFrom before text
      (readLinesFrom surrounding number before.byteLength text.splitLines) terminators := by
  have single : ∀ {line returned : Text}, '\n' ∉ line → line = line.dropReturn ++ returned →
      '\n' ∉ line.dropReturn := by
    intro line returned within whole listed
    rw [whole] at within
    exact within (List.mem_append_left returned listed)
  rw [Text.splitLines_eq_splitOn]
  induction text using Text.firstLine_induction generalizing surrounding number before with
  | last line within =>
      obtain ⟨returned, whole, ends⟩ := line.exists_eq_dropReturn_append
      rw [List.splitOn_eq_singleton within]
      exact ⟨[returned], .last ⟨rfl, single within whole⟩ whole ends⟩
  | first line later within inductionHypothesis =>
      obtain ⟨returned, whole, ends⟩ := line.exists_eq_dropReturn_append
      rw [List.splitOn_append_cons_self_of_not_mem within]
      have isEnd : IsLineEnd (returned ++ ['\n']) := by
        rcases ends with rfl | rfl
        · exact .inl rfl
        · exact .inr rfl
      have divided : line ++ '\n' :: later =
          line.dropReturn ++ (returned ++ ['\n'] ++ later) := by
        conv_lhs => rw [whole]
        simp
      -- The scanner adds one byte to the segment, in which a carriage return counts already.
      have offset : before.byteLength + line.byteLength + 1 =
          (before ++ (line.dropReturn ++ (returned ++ ['\n']))).byteLength := by
        conv_lhs => rw [whole]
        have lineFeed : '\n'.utf8Size = 1 := rfl
        simp [lineFeed, Nat.add_assoc]
      obtain ⟨terminators, behind⟩ := inductionHypothesis
        (surrounding.after line.dropReturn.trim) (number + 1)
        (before ++ (line.dropReturn ++ (returned ++ ['\n'])))
      rw [← offset] at behind
      exact ⟨_, .next ⟨rfl, single within whole⟩ divided isEnd behind⟩

/-! ## What lines leave of their source -/

/-- The spans between one line and the next, and the span from the last line to some offset. -/
def gapsUpTo (stop : Nat) : List Line → List Span
  | [] => []
  | [last] => [{ start := last.span.stop, stop }]
  | line :: next :: later =>
      { start := line.span.stop, stop := next.span.start } :: gapsUpTo stop (next :: later)

namespace StandsFrom

variable {before text : Text} {lines : List Line} {terminators : List Text}

theorem length_eq (stands : StandsFrom before text lines terminators) :
    lines.length = text.count '\n' + 1 := by
  induction stands with
  | @last _ _ terminator _ stands whole ends =>
      have noFeed : terminator.count '\n' = 0 := by rcases ends with rfl | rfl <;> rfl
      rw [whole, List.count_append, List.count_eq_zero_of_not_mem stands.single, noFeed]
      rfl
  | @next _ _ terminator _ _ _ _ stands whole ends _ inductionHypothesis =>
      have oneFeed : terminator.count '\n' = 1 := by rcases ends with rfl | rfl <;> rfl
      rw [List.length_cons, inductionHypothesis, whole, List.count_append, List.count_append,
        List.count_eq_zero_of_not_mem stands.single, oneFeed]
      omega

/-- The first line stands right behind what is before the lines. -/
theorem start_eq (stands : StandsFrom before text lines terminators) :
    ∃ first later, lines = first :: later ∧ first.span.start = before.byteLength := by
  cases stands with
  | last stands _ _ => exact ⟨_, _, rfl, by rw [stands.span]⟩
  | next stands _ _ _ => exact ⟨_, _, rfl, by rw [stands.span]⟩

theorem rebuilt (stands : StandsFrom before text lines terminators) :
    (List.zipWith (· ++ ·) (lines.map Line.raw) terminators).flatten = text := by
  induction stands with
  | last _ whole _ => simp [whole]
  | next _ whole _ _ inductionHypothesis => simp [whole, inductionHypothesis]

theorem ends (stands : StandsFrom before text lines terminators) :
    ∃ between last, terminators = between ++ [last] ∧
      (∀ terminator ∈ between, IsLineEnd terminator) ∧ IsSourceEnd last := by
  induction stands with
  | last _ _ ends => exact ⟨[], _, rfl, by simp, ends⟩
  | next _ _ ends _ inductionHypothesis =>
      obtain ⟨between, last, rfl, areEnds, isEnd⟩ := inductionHypothesis
      exact ⟨_ :: between, last, rfl, List.forall_mem_cons.mpr ⟨ends, areEnds⟩, isEnd⟩

/-- A line and its terminator stand where the line says, behind one another. -/
theorem slice?_of_standsBehind {before terminator rest source : Text} {line : Line}
    (stands : line.StandsBehind before)
    (whole : source = before ++ (line.raw ++ (terminator ++ rest))) :
    source.slice? line.span = some line.raw ∧
      source.slice? {
        start := line.span.stop
        stop := (before ++ (line.raw ++ terminator)).byteLength } = some terminator := by
  constructor
  · exact Text.slice?_eq_some_iff.mpr ⟨before, terminator ++ rest, whole, stands.span⟩
  · refine Text.slice?_eq_some_iff.mpr ⟨before ++ line.raw, rest, ?_, ?_⟩
    · rw [whole, List.append_assoc]
    · rw [stands.span]
      simp [Nat.add_assoc]

/-- The spans of lines hold their texts, and the gaps between them their terminators. -/
theorem slices {source : Text} (stands : StandsFrom before text lines terminators)
    (isSource : source = before ++ text) :
    (∀ line ∈ lines, source.slice? line.span = some line.raw ∧ '\n' ∉ line.raw) ∧
      (gapsUpTo source.byteLength lines).map source.slice? = terminators.map some := by
  induction stands with
  | @last before text terminator line stands whole _ =>
      have isLast : source = before ++ (line.raw ++ (terminator ++ [])) := by
        rw [isSource, whole, List.append_nil]
      obtain ⟨here, gap⟩ := slice?_of_standsBehind stands isLast
      have stop : source.byteLength = (before ++ (line.raw ++ terminator)).byteLength := by
        rw [isSource, whole]
      refine ⟨List.forall_mem_singleton.mpr ⟨here, stands.single⟩, ?_⟩
      rw [gapsUpTo, List.map_singleton, List.map_singleton, stop, gap]
  | @next before text terminator rest line later terminators stands whole _ behind
      inductionHypothesis =>
      rw [whole] at isSource
      obtain ⟨here, gap⟩ := slice?_of_standsBehind stands isSource
      obtain ⟨raws, gaps⟩ := inductionHypothesis (by rw [isSource]; simp)
      obtain ⟨following, others, rfl, start⟩ := behind.start_eq
      refine ⟨List.forall_mem_cons.mpr ⟨⟨here, stands.single⟩, raws⟩, ?_⟩
      rw [gapsUpTo, List.map_cons, List.map_cons, gaps, start, gap]

end StandsFrom

/-! ## Sources -/

/-- Lines that hold all of a source but their terminators. -/
structure IsLossless (source : Text) (lines : List Line) (terminators : List Text) : Prop where
  /-- There is one line more than there are line feeds. -/
  count : lines.length = source.count '\n' + 1
  number : ∀ place line, lines[place]? = some line → line.number = place + 1
  start : lines.head?.map (fun line => line.span.start) = some 0
  /-- The span of a line holds its text, which is in one line. -/
  spans : ∀ line ∈ lines, source.slice? line.span = some line.raw ∧ '\n' ∉ line.raw
  /-- What is between two spans, and behind the last one, are the terminators. -/
  gaps : (gapsUpTo source.byteLength lines).map source.slice? = terminators.map some
  ends : ∃ between last, terminators = between ++ [last] ∧
    (∀ terminator ∈ between, IsLineEnd terminator) ∧ IsSourceEnd last
  /-- The lines with their terminators are the source. -/
  rebuilt : (List.zipWith (· ++ ·) (lines.map Line.raw) terminators).flatten = source

/-- Scanning a source loses nothing but the terminators of its lines, and those stand in the gaps
that the spans of the lines leave. -/
theorem readLines_isLossless (source : Text) :
    ∃ terminators, IsLossless source (readLines source) terminators := by
  obtain ⟨terminators, stands⟩ := exists_standsFrom .plain 1 [] source
  change StandsFrom [] source (readLines source) terminators at stands
  have numbers : (readLines source).map Line.number = List.range' 1 source.splitLines.length :=
    map_number_readLinesFrom .plain 1 0 source.splitLines
  obtain ⟨spans, gaps⟩ := stands.slices rfl
  obtain ⟨first, later, isFirst, start⟩ := stands.start_eq
  refine ⟨terminators, ?_⟩
  exact {
    count := stands.length_eq
    number := by
      intro place line isLine
      have isNumber : ((readLines source).map Line.number)[place]? = some line.number := by
        rw [List.getElem?_map, isLine, Option.map_some]
      rw [numbers] at isNumber
      obtain ⟨_, same⟩ := List.getElem?_eq_some_iff.mp isNumber
      rw [List.getElem_range'] at same
      omega
    start := by rw [isFirst, List.head?_cons, Option.map_some, start]; rfl
    spans
    gaps
    ends := stands.ends
    rebuilt := stands.rebuilt }

example : (readLines "ä\r\n\nb\r".toList).map Line.span =
    [{ start := 0, stop := 2 }, { start := 4, stop := 4 }, { start := 5, stop := 6 }] := by
  decide +kernel

end SchemaMarkup
