import SchemaMarkup.Proofs.Locations.DocumentReading
import SchemaMarkup.Proofs.Reading.SourcePasses

/-!
# Lines of a source

`Location.IsLineOf` says that a location is a line of a source: of the number, with the text and
at the bytes that it names. The lines that a source is read into are of that kind
(`isLineOf_readLines`), and reading names no other places than theirs. For that no reader has
to be followed through its branches: a function that moves every place but those of the lines moves
nothing of the outcome, since it moves nothing of the input (`Document.ofSpokenLines_relocate`).
-/

namespace SchemaMarkup

/-- A location that is a line of a source. -/
structure Location.IsLineOf (source : Text) (location : Location) : Prop where
  /-- Lines are numbered from one on. -/
  positive : 1 ≤ location.line
  bounded : location.line ≤ (source.splitOn '\n').length
  /-- The text is that of the line of the number, without its terminator. -/
  line : ((source.splitOn '\n')[location.line - 1]?).map Text.dropReturn =
    some location.text.toList
  /-- The span holds the bytes of the text, behind those of the lines before it. -/
  span : ∃ before after : Text, source = before ++ location.text.toList ++ after ∧
    before.count '\n' + 1 = location.line ∧
    location.span = {
      start := before.byteLength
      stop := before.byteLength + Text.byteLength location.text.toList }

/-! ## Lines -/

namespace Text

/-- A text is its only line, or its first line with more lines behind it. -/
theorem firstLine_induction {holds : Text → Prop} (last : ∀ line, '\n' ∉ line → holds line)
    (first : ∀ line later, '\n' ∉ line → holds later → holds (line ++ '\n' :: later))
    (text : Text) : holds text := by
  by_cases several : '\n' ∈ text
  · obtain ⟨line, later, isText, within⟩ := List.eq_append_cons_of_mem several
    have shorter : later.length < text.length := by
      rw [isText, List.length_append, List.length_cons]
      omega
    rw [isText]
    exact first line later within (firstLine_induction last first later)
  · exact last text several
termination_by text.length

/-- Only the terminator of a line stands behind its text. -/
theorem exists_eq_dropReturn_append (line : Text) :
    ∃ returned, line = line.dropReturn ++ returned ∧ (returned = [] ∨ returned = ['\r']) := by
  rw [dropReturn]
  split
  · next returns =>
      obtain ⟨front, rfl⟩ := List.getLast?_eq_some_iff.mp (eq_of_beq returns)
      exact ⟨['\r'], by rw [List.dropLast_concat], .inr rfl⟩
  · exact ⟨[], (List.append_nil line).symm, .inl rfl⟩

end Text

/-- A line that stands in a source behind the lines before it is a line of the source. -/
theorem isLineOf_of_divided {source before segment after : Text} {front later : List Text}
    (whole : source = before ++ segment ++ after)
    (divided : source.splitOn '\n' = front ++ segment :: later)
    (number : front.length = before.count '\n') :
    Location.IsLineOf source {
      line := front.length + 1
      text := String.ofList segment.dropReturn
      span := {
        start := before.byteLength
        stop := before.byteLength + segment.dropReturn.byteLength } } where
  positive := Nat.le_add_left 1 _
  bounded := by simp [divided]
  line := by simp [divided]
  span := by
    obtain ⟨returned, isSegment, _⟩ := segment.exists_eq_dropReturn_append
    refine ⟨before, returned ++ after, ?_, by rw [number], by rw [String.toList_ofList]⟩
    conv_lhs => rw [whole, isSegment]
    simp

/-- The lines behind a part of a source are lines of the source. -/
theorem isLineOf_readLinesFrom {source before text : Text} {front : List Text}
    (surrounding : Surrounding) (whole : source = before ++ text)
    (divided : source.splitOn '\n' = front ++ text.splitOn '\n')
    (number : front.length = before.count '\n') :
    ∀ line ∈ readLinesFrom surrounding (front.length + 1) before.byteLength text.splitLines,
      line.location.IsLineOf source := by
  rw [Text.splitLines_eq_splitOn]
  induction text using Text.firstLine_induction generalizing surrounding before front with
  | last line within =>
      rw [List.splitOn_eq_singleton within] at divided ⊢
      simp only [readLinesFrom, List.forall_mem_singleton]
      exact isLineOf_of_divided (by rw [whole, List.append_nil]) divided number
  | first line later within inductionHypothesis =>
      rw [List.splitOn_append_cons_self_of_not_mem within] at divided ⊢
      simp only [readLinesFrom, List.forall_mem_cons]
      refine ⟨isLineOf_of_divided (by rw [whole, List.append_assoc]) divided number, ?_⟩
      have wholeBehind : source = (before ++ line ++ ['\n']) ++ later := by
        rw [whole]
        simp
      have dividedBehind : source.splitOn '\n' = (front ++ [line]) ++ later.splitOn '\n' := by
        rw [divided]
        simp
      have numberBehind : (front ++ [line]).length = (before ++ line ++ ['\n']).count '\n' := by
        simp [number, List.count_eq_zero_of_not_mem within]
      have behind := inductionHypothesis (surrounding.after line.dropReturn.trim) wholeBehind
        dividedBehind numberBehind
      have lineFeed : '\n'.utf8Size = 1 := rfl
      simpa [Nat.add_assoc, lineFeed] using behind

/-- The lines of a source are lines of the source. -/
theorem isLineOf_readLines (source : Text) :
    ∀ line ∈ readLines source, line.location.IsLineOf source :=
  @isLineOf_readLinesFrom source [] source [] .plain rfl rfl rfl

/-! ## Reading -/

/-- Moves every location that is not among those given. -/
def Location.awayFrom (kept : List Location) (location : Location) : Location :=
  if location ∈ kept then location else { location with line := location.line + 1 }

/-- What is not moved is among the locations that are kept. -/
theorem Location.awayFrom_eq_self_iff {kept : List Location} {location : Location} :
    location.awayFrom kept = location ↔ location ∈ kept := by
  rw [awayFrom]
  split
  · next isKept => simp [isKept]
  · next moved =>
      simp only [moved, iff_false]
      intro same
      have lines := congrArg Location.line same
      simp at lines

/-- If moving leaves a list as it is, all of it is kept. -/
theorem Location.subset_of_map_awayFrom {kept locations : List Location}
    (same : locations.map (Location.awayFrom kept) = locations) : locations ⊆ kept := by
  intro location listed
  have fixed := List.map_inj_left.mp (same.trans (List.map_id locations).symm) location listed
  exact Location.awayFrom_eq_self_iff.mp fixed

namespace Document

variable {options : ReadingOptions} {lines : List Line}

/-- Moving every location but those of the lines moves nothing of what is read from them. -/
theorem ofSpokenLines_awayFrom (options : ReadingOptions) (lines : List Line) :
    let move := Location.awayFrom (lines.map Line.location)
    relocateOutcome move (Prod.map (Document.relocate move) (List.map (Diagnostic.relocate move)))
      (ofSpokenLines options lines) = ofSpokenLines options lines := by
  intro move
  have fixed : lines.map (Line.relocate move) = lines := by
    conv_rhs => rw [← List.map_id lines]
    refine List.map_congr_left fun line listed => Line.relocate_of_fixed move ?_
    exact Location.awayFrom_eq_self_iff.mpr (List.mem_map_of_mem listed)
  rw [← ofSpokenLines_relocate, fixed]

/-- What is read from lines names no other places than theirs. -/
theorem locations_subset_of_ofSpokenLines {document : Document} {warnings : List Diagnostic}
    (isRead : ofSpokenLines options lines = .ok (document, warnings)) :
    document.locations ⊆ lines.map Line.location ∧
      warnings.flatMap Diagnostic.locations ⊆ lines.map Line.location := by
  have same := ofSpokenLines_awayFrom options lines
  simp only [isRead, relocateOutcome_ok, Except.ok.injEq, Prod.map_apply, Prod.mk.injEq] at same
  obtain ⟨sameDocument, sameWarnings⟩ := same
  refine ⟨Location.subset_of_map_awayFrom ?_, Location.subset_of_map_awayFrom ?_⟩
  · rw [← Document.locations_relocate, sameDocument]
  · conv_rhs => rw [← sameWarnings]
    rw [List.map_flatMap, List.flatMap_map]
    exact List.flatMap_congr fun warning _ => (warning.locations_relocate _).symm

/-- A fault that lines are refused for names no other places than theirs. -/
theorem locations_subset_of_refused {error : SchemaError}
    (isRefused : ofSpokenLines options lines = .error error) :
    error.diagnostic.locations ⊆ lines.map Line.location := by
  have same := ofSpokenLines_awayFrom options lines
  simp only [isRefused, relocateOutcome_error, Except.error.injEq] at same
  refine Location.subset_of_map_awayFrom ?_
  rw [← Diagnostic.locations_relocate, ← SchemaError.diagnostic_relocate, same]

end Document

end SchemaMarkup
