import SchemaMarkup.Proofs.Reading.BlockOrder
import SchemaMarkup.Proofs.Reading.ChangedBlocks

/-!
# Unknown sections

A section of a model or an interface whose name is not known says nothing, with one exception: a
quote in it that is nested under no item is a paragraph of the description, as it is in any other
section. `Document.read_unknownSection` says that the lines of such a section can be taken away
exactly if that leaves its paragraphs as they are, and that nothing else of them tells.
-/

namespace SchemaMarkup

/-! ## Entries -/

/-- A heading of a section is nested under nothing, and nothing is nested under it. -/
theorem readEntriesUnder_sectionHeading {line : Line} (opens : line.opensSection = true)
    (parent : Option Nat) (later : List Line) :
    readEntriesUnder parent (line :: later) =
      ([], .sectionHeading line :: (readEntriesUnder none later).2) := by
  cases isKind : line.kind <;> simp [Line.opensSection, isKind] at opens
  have noNested : parent.any line.isNestedUnder = false := by
    cases parent <;> simp [Line.isNestedUnder, isKind]
  have noItem : line.depth? = none := by rw [Line.depth?, isKind]
  simp [readEntriesUnder, noNested, noItem, isKind, Line.opensSection, opens]

/-- From the heading of a section on, lines are divided by themselves. -/
theorem readEntriesUnder_append {later : List Line}
    (isSection : ∀ line ∈ later.head?, line.opensSection = true) (parent : Option Nat)
    (front : List Line) :
    readEntriesUnder parent (front ++ later) =
      ((readEntriesUnder parent front).1,
        (readEntriesUnder parent front).2 ++ (readEntriesUnder none later).2) := by
  induction front generalizing parent with
  | nil =>
      cases later with
      | nil => rfl
      | cons line rest =>
          have opens : line.opensSection = true := isSection line rfl
          rw [List.nil_append, readEntriesUnder_sectionHeading opens,
            readEntriesUnder_sectionHeading opens]
          rfl
  | cons line rest inductionHypothesis =>
      simp only [List.cons_append, readEntriesUnder, inductionHypothesis]
      split
      · rfl
      · cases line.kind with
        | heading level =>
            simp only
            split <;> rfl
        | ignorable | item | quote | prose => rfl

/-- A heading of a section among the entries of some lines is one of the lines. -/
theorem opensSection_of_mem_readEntriesUnder {parent : Option Nat} {lines : List Line} {line : Line}
    (listed : .sectionHeading line ∈ (readEntriesUnder parent lines).2) :
    line ∈ lines ∧ line.opensSection = true := by
  induction lines generalizing parent with
  | nil => exact absurd listed List.not_mem_nil
  | cons first rest inductionHypothesis =>
      rw [readEntriesUnder] at listed
      split at listed
      · exact (inductionHypothesis listed).imp_left (List.mem_cons_of_mem first)
      · have behind := fun parent listed =>
          (@inductionHypothesis parent listed).imp_left (List.mem_cons_of_mem first)
        cases isKind : first.kind <;> simp only [isKind] at listed
        · exact behind _ listed
        · split at listed
          · next opens =>
              rcases List.mem_cons.mp listed with same | listed
              · obtain rfl := Entry.sectionHeading.inj same
                exact ⟨List.mem_cons_self, opens⟩
              · exact behind _ listed
          · exact behind _ listed
        · exact behind _ ((List.mem_cons.mp listed).resolve_left (by simp))
        · exact behind _ ((List.mem_cons.mp listed).resolve_left (by simp))
        · exact behind _ listed

/-! ## Models -/

namespace Model

variable {dialect : Dialect}

/-- In an unknown section an entry does nothing but add its paragraph. -/
theorem Progress.add_unknown {progress : Progress} (isUnknown : progress.bodySection = .unknown)
    {entry : Entry} (noHeading : ∀ line, entry ≠ .sectionHeading line) :
    progress.add dialect entry =
      .ok (progress.described (joinParagraphs progress.model.description entry.paragraph?)) := by
  cases entry with
  | sectionHeading line => exact absurd rfl (noHeading line)
  | quote line =>
      rw [Entry.paragraph?, ← appendParagraph_eq]
      rfl
  | item depth line nested =>
      simp only [add, isUnknown, beq_self_eq_true, if_true, Entry.paragraph?, joinParagraphs_none]
      rfl

/-- In an unknown section entries do nothing but add their paragraphs. -/
theorem Progress.foldlM_unknown {progress : Progress} (isUnknown : progress.bodySection = .unknown)
    {entries : List Entry} (noHeading : ∀ entry ∈ entries, ∀ line, entry ≠ .sectionHeading line) :
    entries.foldlM (add dialect) progress =
      .ok (progress.described
        (joinParagraphs progress.model.description (Entry.paragraphs entries))) := by
  induction entries generalizing progress with
  | nil =>
      rw [Entry.paragraphs, List.foldr_nil, joinParagraphs_none]
      rfl
  | cons entry later inductionHypothesis =>
      obtain ⟨here, noHeading⟩ := List.forall_mem_cons.mp noHeading
      rw [List.foldlM_cons, Progress.add_unknown isUnknown here, Entry.paragraphs_cons,
        ← joinParagraphs_assoc]
      exact @inductionHypothesis (progress.described _) isUnknown noHeading

/-- The progress below a heading that is not known: a warning has been given. -/
def Progress.belowUnknown (progress : Progress) (heading : Line) : Progress :=
  { progress with
    bodySection := .unknown
    warnings := progress.warnings ++
      [Diagnostic.unknownSection (String.ofList heading.content) heading.location] }

/-- A model is read over the entries of an unknown section as if they were not there, and its
description gets their paragraphs. -/
theorem read_overUnknown {kind : ModelKind} {header : Header} {location : Location}
    {front within back : List Entry} {heading : Line}
    (isUnknown : BodySection.ofHeading heading.content = .unknown)
    (noHeading : ∀ entry ∈ within, ∀ line, entry ≠ .sectionHeading line) :
    Model.read dialect kind header location
        (front ++ .sectionHeading heading :: (within ++ back)) = (do
      let start ← ofHeader dialect kind header location
      let progress ← front.foldlM (Progress.add dialect) { model := start }
      let last ← back.foldlM (Progress.add dialect) (progress.belowUnknown heading)
      let above := joinParagraphs progress.model.description (Entry.paragraphs within)
      return (last.model.described (joinParagraphs above (Entry.paragraphs back)),
        last.warnings)) := by
  have opens : ∀ progress : Progress, progress.add dialect (.sectionHeading heading) =
      pure (progress.belowUnknown heading) := by
    intro progress
    simp only [Progress.add, isUnknown]
    rfl
  have passes : ∀ progress : Progress,
      within.foldlM (Progress.add dialect) (progress.belowUnknown heading) =
        pure ((progress.belowUnknown heading).described
          (joinParagraphs progress.model.description (Entry.paragraphs within))) :=
    fun progress => Progress.foldlM_unknown rfl noHeading
  simp only [Model.read, List.foldlM_append, List.foldlM_cons, bind_assoc, opens, pure_bind, passes,
    Progress.foldlM_described, bind_map_left]
  rfl

end Model

/-! ## Sections among lines -/

/-- A heading of a section says something. -/
theorem isIgnorable_of_opensSection {line : Line} (opens : line.opensSection = true) :
    line.isIgnorable = false := by
  cases isKind : line.kind <;> simp [Line.opensSection, Line.isIgnorable, isKind] at opens ⊢

/-- A heading of a section opens no block. -/
theorem opensBlock_of_opensSection {line : Line} (opens : line.opensSection = true)
    (dialect : Dialect) : dialect.opensBlock line = false := by
  cases isKind : line.kind <;> simp [Line.opensSection, isKind] at opens
  cases dialect <;> simp [Dialect.opensBlock, isKind] <;> omega

/-- Lines that can stand in one section: none of them opens a section or a block. -/
def IsInside (dialect : Dialect) (lines : List Line) : Prop :=
  ∀ line ∈ lines, line.opensSection = false ∧ dialect.opensBlock line = false

/-- The paragraphs of a section: its quotes that are nested under no item. -/
def paragraphsOf (lines : List Line) : Option String :=
  Entry.paragraphs (readEntriesUnder none lines).2

/-- An unknown section in a block that declares no enumeration, among all lines. -/
structure UnknownSection (dialect : Dialect) where
  /-- The lines before the block. -/
  front : List Line
  /-- The block down to the section. -/
  block : Block
  heading : Line
  /-- The lines of the section. -/
  lines : List Line
  /-- The lines from the next heading of a section or a block on. -/
  below : List Line
  opensBlock : dialect.opensBlock block.heading = true
  noBlock : ∀ line ∈ block.body, dialect.opensBlock line = false
  noEnumeration : ∀ header, Header.read dialect block.heading.content = .ok header →
    header.kind ≠ .enumeration
  opensSection : heading.opensSection = true
  isUnknown : BodySection.ofHeading heading.content = .unknown
  isInside : IsInside dialect lines
  ends : ∀ line ∈ below.head?, line.opensSection = true ∨ dialect.opensBlock line = true

namespace UnknownSection

variable {dialect : Dialect} {lines others : List Line}

/-- All lines with the given ones in the section. -/
def around (part : UnknownSection dialect) (lines : List Line) : List Line :=
  part.front ++ part.block.lines ++ part.heading :: (lines ++ part.below)

/-- The lines of later sections of the block. -/
def rest (part : UnknownSection dialect) : List Line :=
  (splitBlocks dialect part.below).1

/-- The block with the given lines in the section. -/
def blockAround (part : UnknownSection dialect) (lines : List Line) : Block :=
  { part.block with body := part.block.body ++ part.heading :: (lines ++ part.rest) }

/-- A later section starts with its heading. -/
theorem opensSection_rest (part : UnknownSection dialect) :
    ∀ line ∈ part.rest.head?, line.opensSection = true := by
  intro line isFirst
  rw [rest] at isFirst
  cases isBelow : part.below with
  | nil => simp [isBelow, splitBlocks] at isFirst
  | cons first later =>
      have ends := part.ends first (by rw [isBelow]; rfl)
      by_cases opens : dialect.opensBlock first = true
      · simp [isBelow, splitBlocks, opens] at isFirst
      · simp only [isBelow, splitBlocks, if_neg opens] at isFirst
        cases isFirst
        exact ends.resolve_right opens

/-- The lines of the section stand in one block, and all others in the blocks around it. -/
theorem isDivided_around (part : UnknownSection dialect) (isInside : IsInside dialect lines) :
    IsDivided dialect (part.around lines) (splitBlocks dialect part.front).1
      ((splitBlocks dialect part.front).2 ++
        part.blockAround lines :: (splitBlocks dialect part.below).2) := by
  have front := isDivided_splitBlocks dialect part.front
  have below := isDivided_splitBlocks dialect part.below
  refine ⟨?_, front.preamble, ?_, ?_⟩
  · simp only [around, blockAround, rest]
    generalize splitBlocks dialect part.front = dividedFront at front ⊢
    generalize splitBlocks dialect part.below = dividedBelow at below ⊢
    rw [front.whole, below.whole]
    simp [Block.lines]
  · exact List.forall_mem_append.mpr
      ⟨front.headings, List.forall_mem_cons.mpr ⟨part.opensBlock, below.headings⟩⟩
  · refine List.forall_mem_append.mpr
      ⟨front.bodies, List.forall_mem_cons.mpr ⟨?_, below.bodies⟩⟩
    simp only [blockAround, List.forall_mem_append, List.forall_mem_cons]
    exact ⟨part.noBlock, opensBlock_of_opensSection part.opensSection dialect,
      fun line listed => (isInside line listed).2, below.preamble⟩

/-- The entries of the block are those of its parts. -/
theorem entries_blockAround (part : UnknownSection dialect) (lines : List Line) :
    (part.blockAround lines).entries = part.block.entries ++ .sectionHeading part.heading ::
      ((readEntriesUnder none lines).2 ++ (readEntriesUnder none part.rest).2) := by
  have opens : ∀ line ∈ (part.heading :: (lines ++ part.rest)).head?,
      line.opensSection = true := by
    rintro line ⟨⟩
    exact part.opensSection
  rw [Block.entries, blockAround, readEntriesUnder_append opens,
    readEntriesUnder_sectionHeading part.opensSection,
    readEntriesUnder_append part.opensSection_rest]
  rfl

/-- The lines of a section are divided into entries without a heading. -/
theorem noHeading_of_isInside (isInside : IsInside dialect lines) :
    ∀ entry ∈ (readEntriesUnder none lines).2, ∀ line, entry ≠ .sectionHeading line := by
  rintro entry listed line rfl
  obtain ⟨isLine, opens⟩ := opensSection_of_mem_readEntriesUnder listed
  exact absurd opens (by simp [(isInside line isLine).1])

/-- With other lines in the section the block is read with the same outcome but for the paragraphs
of the section. -/
theorem twins_blockAround (part : UnknownSection dialect) (isInside : IsInside dialect lines)
    (isInsideToo : IsInside dialect others) :
    Declaration.Twins dialect (EntityApart (paragraphsOf lines) (paragraphsOf others))
      (part.blockAround lines) (part.blockAround others) where
  heading := rfl
  read := by
    intro header isHeader
    have noEnumeration := part.noEnumeration header isHeader
    cases isKind : header.kind with
    | model | interface =>
        simp only [Declaration.readEntity, isKind, entries_blockAround,
          Model.read_overUnknown part.isUnknown (noHeading_of_isInside isInside),
          Model.read_overUnknown part.isUnknown (noHeading_of_isInside isInsideToo),
          bind_assoc, pure_bind]
        refine .bind_left _ fun start _ => .bind_left _ fun progress _ => ?_
        refine .bind_left _ fun last _ => .ok ⟨fun same => ?_, ?_⟩
        · rw [paragraphsOf, paragraphsOf] at same
          rw [same]
        · exact ⟨progress.model.description, _, rfl, rfl⟩
    | enumeration => contradiction

/-- The dialect of all lines is told by those around the section. -/
theorem dialectFor_around (part : UnknownSection dialect) (choice : DialectChoice)
    (isInside : IsInside dialect lines) (isInsideToo : IsInside dialect others)
    (isDialect : choice.dialectFor (part.around lines) = dialect) :
    choice.dialectFor (part.around others) = dialect := by
  cases choice with
  | fixed chosen => exact isDialect
  | auto =>
      cases dialect with
      | current =>
          -- The heading of the block is one of the second level, which is enough.
          have level : part.block.heading.headingLevel? = some 2 := by
            have opens := part.opensBlock
            cases isKind : part.block.heading.kind <;>
              simp [Dialect.opensBlock, Line.headingLevel?, isKind] at opens ⊢
            exact opens
          simp [DialectChoice.dialectFor, Dialect.detect, around, Block.lines, level]
      | legacy =>
          have noLevel : ∀ line,
              line.opensSection = false ∧ Dialect.legacy.opensBlock line = false →
              line.headingLevel? ≠ some 1 ∧ line.headingLevel? ≠ some 2 := by
            rintro line ⟨_, noBlock⟩
            cases isKind : line.kind <;>
              simp_all [Dialect.opensBlock, Line.headingLevel?]
          have same : ∀ test : Line → Bool,
              (∀ line, line.headingLevel? ≠ some 1 ∧ line.headingLevel? ≠ some 2 →
                test line = false) →
              (part.around others).any test = (part.around lines).any test := by
            intro test tellsNone
            have silent : ∀ inside, IsInside .legacy inside → inside.any test = false :=
              fun inside isInside => List.any_eq_false.mpr fun line listed =>
                Bool.eq_false_iff.mp (tellsNone line (noLevel line (isInside line listed)))
            simp only [around, List.any_append, List.any_cons, silent lines isInside,
              silent others isInsideToo]
          refine Eq.trans ?_ isDialect
          simp only [DialectChoice.dialectFor, Dialect.detect]
          rw [same _ fun line levels => by simp [levels],
            same _ fun line levels => by simp [levels]]

/-- With other lines in the section all lines are read with the same outcome but for the paragraphs
of the section. -/
theorem sameOutcome_around (part : UnknownSection dialect) {options : ReadingOptions}
    (isInside : IsInside dialect lines) (isInsideToo : IsInside dialect others)
    (isDialect : options.dialect.dialectFor (part.around lines) = dialect) :
    SameOutcome (DocumentApart (paragraphsOf lines) (paragraphsOf others))
      (Document.ofSpokenLines options (part.around lines))
      (Document.ofSpokenLines options (part.around others)) :=
  Document.sameOutcome_ofSpokenLines isDialect
    (part.dialectFor_around options.dialect isInside isInsideToo isDialect)
    (part.isDivided_around isInside) (part.isDivided_around isInsideToo)
    (.append_left _ (.here (part.twins_blockAround isInside isInsideToo) _))

/-! ## Lines that say something -/

/-- The section and the lines around it without those that say nothing. -/
def spoken (part : UnknownSection dialect) : UnknownSection dialect where
  front := part.front.filter fun line => !line.isIgnorable
  block := part.block.spoken
  heading := part.heading
  lines := part.lines.filter fun line => !line.isIgnorable
  below := part.below.filter fun line => !line.isIgnorable
  opensBlock := part.opensBlock
  noBlock := fun line listed => part.noBlock line (List.mem_filter.mp listed).1
  noEnumeration := part.noEnumeration
  opensSection := part.opensSection
  isUnknown := part.isUnknown
  isInside := fun line listed => part.isInside line (List.mem_filter.mp listed).1
  ends := by
    cases isBelow : part.below with
    | nil => simp
    | cons first later =>
        have ends := part.ends first (by rw [isBelow]; rfl)
        have speaks : first.isIgnorable = false :=
          ends.elim isIgnorable_of_opensSection isIgnorable_of_opensBlock
        rw [List.filter_cons_of_pos (by simp [speaks])]
        rintro line ⟨⟩
        exact ends

theorem filter_around (part : UnknownSection dialect) (lines : List Line) :
    ((part.around lines).filter fun line => !line.isIgnorable) =
      part.spoken.around (lines.filter fun line => !line.isIgnorable) := by
  have heading := isIgnorable_of_opensSection part.opensSection
  have blockHeading := isIgnorable_of_opensBlock part.opensBlock
  simp [around, spoken, Block.spoken, Block.lines, heading, blockHeading]

end UnknownSection

namespace Surrounding

variable {surrounding : Surrounding} {line : Line} {lines later : List Line}

theorem isScanned_cons :
    surrounding.IsScanned (line :: later) ↔
      line.said = surrounding.classify line.raw ∧
        (surrounding.after line.raw.trim).IsScanned later := by
  rw [IsScanned, List.map_cons, List.map_cons, scan, List.cons.injEq]
  rfl

/-- A line that says something opens neither a comment nor fenced code. -/
theorem after_of_speaks (isSaid : line.said = plain.classify line.raw)
    (speaks : line.isIgnorable = false) : plain.after line.raw.trim = .plain := by
  have shown : plain.hides line.raw.trim = false := by
    by_contra hides
    have hidden := classify_of_hides (eq_true_of_ne_false hides)
    rw [← isSaid] at hidden
    simp [Line.isIgnorable, show line.kind = .ignorable from hidden] at speaks
  simp only [hides, Bool.or_eq_false_iff] at shown
  simp [after, shown]

/-- Lines that say something can be taken away from others and from each other. -/
theorem IsScanned.of_sublist (scanned : surrounding.IsScanned lines)
    {kept : List Line} (isKept : kept.Sublist (lines.filter fun line => !line.isIgnorable)) :
    plain.IsScanned kept ∧ plain.afterAll (kept.map Line.raw) = .plain := by
  have each : ∀ line ∈ lines.filter fun line => !line.isIgnorable,
      line.said = plain.classify line.raw ∧ plain.after line.raw.trim = .plain := by
    clear isKept
    induction lines generalizing surrounding with
    | nil => exact fun line listed => absurd listed List.not_mem_nil
    | cons line later inductionHypothesis =>
        have behind := inductionHypothesis (isScanned_cons.mp scanned).2
        cases speaks : line.isIgnorable with
        | true => simpa [speaks] using behind
        | false =>
            obtain rfl := scanned.eq_plain speaks
            have isSaid := (isScanned_cons.mp scanned).1
            rw [List.filter_cons_of_pos (by simp [speaks])]
            exact List.forall_mem_cons.mpr ⟨⟨isSaid, after_of_speaks isSaid speaks⟩, behind⟩
  have each := fun line listed => each line (isKept.subset listed)
  clear isKept
  induction kept with
  | nil => exact ⟨rfl, rfl⟩
  | cons line later inductionHypothesis =>
      obtain ⟨⟨isSaid, leaves⟩, behind⟩ := List.forall_mem_cons.mp each
      obtain ⟨scanned, closed⟩ := inductionHypothesis behind
      rw [isScanned_cons, List.map_cons, afterAll_cons, leaves]
      exact ⟨⟨isSaid, scanned⟩, closed⟩

end Surrounding

/-! ## Sources -/

/-- The lines of a source are scanned without those of the section. -/
theorem UnknownSection.isScanned_around {dialect : Dialect} (part : UnknownSection dialect)
    (scanned : Surrounding.plain.IsScanned (part.around part.lines)) {kept : List Line}
    (isKept : kept.Sublist (part.lines.filter fun line => !line.isIgnorable)) :
    Surrounding.plain.IsScanned (part.around kept) := by
  obtain ⟨above, fromHeading⟩ := Surrounding.isScanned_append.mp scanned
  have speaks := isIgnorable_of_opensSection part.opensSection
  have leaves := fromHeading.eq_plain speaks
  rw [leaves, Surrounding.isScanned_cons] at fromHeading
  obtain ⟨isSaid, behind⟩ := fromHeading
  rw [Surrounding.after_of_speaks isSaid speaks, Surrounding.isScanned_append] at behind
  obtain ⟨inside, below⟩ := behind
  have belowPlain : Surrounding.plain.IsScanned part.below := by
    cases isBelow : part.below with
    | nil => rfl
    | cons first later =>
        have firstSpeaks := (part.ends first (by rw [isBelow]; rfl)).elim
          isIgnorable_of_opensSection isIgnorable_of_opensBlock
        rw [isBelow] at below
        rwa [below.eq_plain firstSpeaks] at below
  obtain ⟨keptScanned, closed⟩ := inside.of_sublist isKept
  have keptBelow : Surrounding.plain.IsScanned (kept ++ part.below) := by
    rw [Surrounding.isScanned_append, closed]
    exact ⟨keptScanned, belowPlain⟩
  refine Surrounding.isScanned_append.mpr ⟨above, ?_⟩
  rw [leaves, Surrounding.isScanned_cons, Surrounding.after_of_speaks isSaid speaks]
  exact ⟨isSaid, keptBelow⟩

/-- Outcomes that differ in locations alone have the same descriptions. -/
theorem ReadAlike.descriptions_eq {outcome other : Document × List Diagnostic}
    (alike : ReadAlike (.ok outcome) (.ok other)) :
    outcome.1.descriptions = other.1.descriptions := by
  cases alike with
  | read sameDocument sameWarnings =>
      have same := congrArg Document.descriptions sameDocument
      rwa [Document.descriptions_withoutLocations, Document.descriptions_withoutLocations] at same

/-- Two outcomes around paragraphs differ in locations alone exactly if the paragraphs are the
same. -/
theorem DocumentApart.readAlike_iff {first second : Option String}
    {outcome twin : Document × List Diagnostic} (apart : DocumentApart first second outcome twin) :
    ReadAlike (.ok outcome) (.ok twin) ↔ first = second := by
  constructor
  · intro alike
    obtain ⟨description, surround⟩ := apart.descriptions.exists_of_eq alike.descriptions_eq
    exact eq_of_surround surround
  · intro same
    rw [apart.same same]
    exact .refl _

/-- The lines of an unknown section do nothing but describe its entity. Taking lines of it away, all
those that say nothing and any of the others, makes no difference but to locations exactly if the
source is refused or the same paragraphs are left. -/
theorem Document.read_unknownSection {options : ReadingOptions} {source : Text} {dialect : Dialect}
    (isDialect : options.dialect.dialectFor (readLines source) = dialect)
    (part : UnknownSection dialect) (isSource : readLines source = part.around part.lines)
    {kept : List Line} (isKept : kept.Sublist (part.lines.filter fun line => !line.isIgnorable))
    {other : Text} (isOther : other.rawLines = (part.around kept).map Line.raw) :
    ReadAlike (read options source) (read options other) ↔
      (∃ fault, read options source = .error fault) ∨
        paragraphsOf (part.lines.filter fun line => !line.isIgnorable) = paragraphsOf kept := by
  have scanned : Surrounding.plain.IsScanned (part.around part.lines) := by
    rw [← isSource, Surrounding.IsScanned, map_said_readLines, map_raw_readLines]
  have spokenSource : spokenLines source = part.spoken.around part.spoken.lines := by
    rw [spokenLines, isSource, part.filter_around]
    rfl
  have spokenKept : (kept.filter fun line => !line.isIgnorable) = kept :=
    List.filter_eq_self.mpr fun line listed => (List.mem_filter.mp (isKept.subset listed)).2
  have sameSpeech : (spokenLines other).map Line.said =
      (part.spoken.around kept).map Line.said := by
    have spoken := speech_eq_filter_scan other
    rw [isOther, ← part.isScanned_around scanned isKept, List.filter_map] at spoken
    rw [← spokenKept, ← part.filter_around]
    exact spoken
  have alike :
      ReadAlike (read options other) (ofSpokenLines options (part.spoken.around kept)) := by
    rw [read_eq]
    exact readAlike_of_map_said options sameSpeech
  have spokenDialect : options.dialect.dialectFor (part.spoken.around part.spoken.lines) =
      dialect := by
    rw [← spokenSource, spokenLines, dialectFor_spoken, isDialect]
  have isInside : IsInside dialect kept := fun line listed =>
    part.spoken.isInside line (isKept.subset listed)
  have outcome := part.spoken.sameOutcome_around part.spoken.isInside isInside spokenDialect
  rw [← spokenSource, ← read_eq] at outcome
  have moved : ReadAlike (read options source) (read options other) ↔
      ReadAlike (read options source) (ofSpokenLines options (part.spoken.around kept)) :=
    ⟨fun same => same.trans alike, fun same => same.trans alike.symm⟩
  rw [moved]
  generalize read options source = first at outcome ⊢
  generalize ofSpokenLines options (part.spoken.around kept) = second at outcome ⊢
  cases outcome with
  | error fault => exact ⟨fun _ => .inl ⟨fault, rfl⟩, fun _ => .refl _⟩
  | ok apart =>
      rw [apart.readAlike_iff]
      exact ⟨.inr, fun outcome => outcome.resolve_left (by simp)⟩

/-- A model with an unknown section, in which an item cannot be read and a quote is loose. -/
def triggers : Text :=
  "## A
### Triggers
- on insert (
> note
### Fields
- y: string".toList

/-- The model without the lines of the section. -/
def bareTriggers : Text :=
  "## A
### Triggers
### Fields
- y: string".toList

/-- The model with the quote alone in the section. -/
def quotedTriggers : Text :=
  "## A
### Triggers
> note
### Fields
- y: string".toList

/-- The section for triggers. -/
def triggersSection : UnknownSection .current where
  front := []
  block := { heading := (readLines triggers).get ⟨0, by decide +kernel⟩, body := [] }
  heading := (readLines triggers).get ⟨1, by decide +kernel⟩
  lines := ((readLines triggers).drop 2).take 2
  below := (readLines triggers).drop 4
  opensBlock := by decide +kernel
  noBlock := fun line listed => absurd listed List.not_mem_nil
  noEnumeration := by
    intro header isHeader
    have isModel : (Header.read .current "A".toList).map Header.kind = .ok .model := by
      decide +kernel
    have isContent : ((readLines triggers).get ⟨0, by decide +kernel⟩).content = "A".toList := by
      decide +kernel
    rw [← isContent, isHeader] at isModel
    simp [Except.ok.inj isModel]
  opensSection := by decide +kernel
  isUnknown := by decide +kernel
  isInside := by
    rw [IsInside]
    decide +kernel
  ends := by decide +kernel

theorem triggers_eq_around :
    readLines triggers = triggersSection.around triggersSection.lines := by
  decide +kernel

/-- The item of the section can be taken away, though not read. -/
theorem triggers_readAlike :
    DialectChoice.auto.dialectFor (readLines triggers) = .current ∧
      readLines triggers = triggersSection.around triggersSection.lines ∧
      (triggersSection.lines.drop 1).Sublist
        (triggersSection.lines.filter fun line => !line.isIgnorable) ∧
      quotedTriggers.rawLines =
        (triggersSection.around (triggersSection.lines.drop 1)).map Line.raw ∧
      ReadAlike (Document.read {} triggers) (Document.read {} quotedTriggers) := by
  have isDialect : DialectChoice.auto.dialectFor (readLines triggers) = .current := by
    decide +kernel
  have isKept : (triggersSection.lines.drop 1).Sublist
      (triggersSection.lines.filter fun line => !line.isIgnorable) := by
    decide +kernel
  have isOther : quotedTriggers.rawLines =
      (triggersSection.around (triggersSection.lines.drop 1)).map Line.raw := by
    decide +kernel
  refine ⟨isDialect, triggers_eq_around, isKept, isOther, ?_⟩
  refine (@Document.read_unknownSection {} triggers .current isDialect triggersSection
    triggers_eq_around _ isKept quotedTriggers isOther).mpr (.inr ?_)
  decide +kernel

/-- The quote of the section cannot be taken away: it describes the model. -/
theorem bareTriggers_not_readAlike :
    readLines triggers = triggersSection.around triggersSection.lines ∧
      bareTriggers.rawLines = (triggersSection.around []).map Line.raw ∧
      ¬ ReadAlike (Document.read {} triggers) (Document.read {} bareTriggers) := by
  refine ⟨triggers_eq_around, by decide +kernel, ?_⟩
  have described : (Document.read {} triggers).map (·.1.descriptions) = .ok [some "note"] := by
    decide +kernel
  have bare : (Document.read {} bareTriggers).map (·.1.descriptions) = .ok [none] := by
    decide +kernel
  obtain ⟨outcome, isRead, note⟩ := map_eq_ok_iff.mp described
  obtain ⟨other, isReread, nothing⟩ := map_eq_ok_iff.mp bare
  rw [isRead, isReread]
  intro alike
  have same := alike.descriptions_eq
  rw [note, nothing] at same
  contradiction

end SchemaMarkup
