import SchemaMarkup.Proofs.Reading.SilentLines
import SchemaMarkup.Proofs.Reading.SourceBlocks

/-!
# Order of blocks

The blocks of a source can change places. Their headings are read before any body, so a body sees
no more of the other blocks than their names, and that only when foreign keys are inferred.
`Document.read_reordered` says that a document whose blocks stand in another order has the same
entities, in the order of the blocks, and the same holds for the warnings.

Two things do depend on the order and are excluded. A comment or fenced code that a block leaves
open hides the blocks behind it. And of two names that differ only in case, a third spelling
finds the first one.
-/

namespace SchemaMarkup

/-! ## Foreign keys -/

namespace Document

variable {first second document : Document}

/-- No two entities have names that are equal up to case. -/
def NamesApart (document : Document) : Prop :=
  ∀ one ∈ document.names, ∀ other ∈ document.names, equalIgnoringCase one other = true → one = other

theorem models_perm (same : first.entities.Perm second.entities) :
    first.models.Perm second.models :=
  same.filterMap _

/-- What a field refers to by its name does not depend on the order of the entities. -/
theorem inferredTarget?_perm (apart : first.NamesApart) (dialect : second.dialect = first.dialect)
    (same : first.entities.Perm second.entities) (field : Field) :
    second.inferredTarget? field = first.inferredTarget? field := by
  have models : (first.modelsOfKind .model).Perm (second.modelsOfKind .model) :=
    (models_perm same).filter _
  have alone : ∀ one ∈ first.modelsOfKind .model, ∀ other ∈ first.modelsOfKind .model,
      equalIgnoringCase one.name other.name = true → one = other := by
    intro one listed other alsoListed alike
    have named : ∀ model ∈ first.modelsOfKind .model, model ∈ first.models ∧
        model.name ∈ first.names := fun model isListed =>
      have isModel := (List.mem_filter.mp isListed).1
      ⟨isModel, List.mem_map_of_mem (mem_models_iff.mp isModel)⟩
    exact List.inj_on_of_nodup_map first.nodup_names_models (named one listed).1
      (named other alsoListed).1 (apart _ (named one listed).2 _ (named other alsoListed).2 alike)
  have alsoAlone : ∀ one ∈ second.modelsOfKind .model, ∀ other ∈ second.modelsOfKind .model,
      equalIgnoringCase one.name other.name = true → one = other :=
    fun one listed other alsoListed =>
      alone one (models.mem_iff.mpr listed) other (models.mem_iff.mpr alsoListed)
  have found : ∀ name, findNamed? Model.name (second.modelsOfKind .model) name =
      findNamed? Model.name (first.modelsOfKind .model) name := by
    intro name
    ext model
    rw [findNamed?_eq_some_iff alone, findNamed?_eq_some_iff alsoAlone, models.mem_iff]
  simp only [inferredTarget?, found, dialect]

theorem inferForeignKey_perm (apart : first.NamesApart) (dialect : second.dialect = first.dialect)
    (same : first.entities.Perm second.entities) :
    second.inferForeignKey = first.inferForeignKey := by
  funext field
  rw [inferForeignKey, inferForeignKey, inferredTarget?_perm apart dialect same]

/-- A document lists the same entities in another order if it finds the same ones by name. -/
theorem find?_perm (same : first.entities.Perm second.entities) (name : String) :
    second.find? name = first.find? name := by
  ext entity
  rw [find?_eq_some_iff, find?_eq_some_iff, same.mem_iff]

end Document

/-! ## Outcomes in the order of blocks -/

/-- Two outcomes of reading, one for blocks in some order and one for the same blocks in
another order. -/
structure Reordered (blocks shuffled : List Block) (first second : Document × List Diagnostic) :
    Prop where
  dialect : second.1.dialect = first.1.dialect
  namespaceName : second.1.namespaceName = first.1.namespaceName
  /-- An entity is the same in both. -/
  entities : ∀ name, second.1.find? name = first.1.find? name
  /-- Entities and warnings stand in the order of the blocks that they are read from. -/
  order : ∃ reading : Block → Entity × List Diagnostic,
    first.1.entities = blocks.map (fun block => (reading block).1) ∧
    second.1.entities = shuffled.map (fun block => (reading block).1) ∧
    first.2 = blocks.flatMap (fun block => (reading block).2) ∧
    second.2 = shuffled.flatMap (fun block => (reading block).2)

/-- Outcomes of the same setting that list the same entities, each block by block, are
reordered. -/
theorem reordered_of_reading {blocks shuffled : List Block} (same : shuffled.Perm blocks)
    {first second : Document × List Diagnostic} (dialect : second.1.dialect = first.1.dialect)
    (namespaceName : second.1.namespaceName = first.1.namespaceName)
    {reading : Block → Entity × List Diagnostic}
    (entities : first.1.entities = blocks.map (fun block => (reading block).1))
    (reread : second.1.entities = shuffled.map (fun block => (reading block).1))
    (warnings : first.2 = blocks.flatMap (fun block => (reading block).2))
    (others : second.2 = shuffled.flatMap (fun block => (reading block).2)) :
    Reordered blocks shuffled first second where
  dialect
  namespaceName
  entities := by
    refine Document.find?_perm ?_
    rw [entities, reread]
    exact same.symm.map _
  order := ⟨reading, entities, reread, warnings, others⟩

/-- Reordered outcomes stay reordered when all locations are forgotten. -/
theorem Reordered.withoutLocations {blocks shuffled : List Block}
    {first second : Document × List Diagnostic} (same : shuffled.Perm blocks)
    (reordered : Reordered blocks shuffled first second) :
    Reordered blocks shuffled
      (first.map Document.withoutLocations (List.map Diagnostic.withoutLocations))
      (second.map Document.withoutLocations (List.map Diagnostic.withoutLocations)) := by
  obtain ⟨reading, entities, reread, warnings, others⟩ := reordered.order
  refine @reordered_of_reading _ _ same _ _ reordered.dialect reordered.namespaceName
    (fun block =>
      ((reading block).1.withoutLocations, (reading block).2.map Diagnostic.withoutLocations))
    ?_ ?_ ?_ ?_
  · simp only [Prod.map_fst, Document.withoutLocations, Document.relocate, entities, List.map_map]
    rfl
  · simp only [Prod.map_fst, Document.withoutLocations, Document.relocate, reread, List.map_map]
    rfl
  · simp only [Prod.map_snd, warnings, List.map_flatMap]
  · simp only [Prod.map_snd, others, List.map_flatMap]

namespace Document

/-- Blocks can change places among lines that are read without foreign keys. -/
theorem ofLines_reordered {dialect : Dialect} {lines others preamble : List Line}
    {blocks shuffled : List Block} {document : Document} {warnings : List Diagnostic}
    (isRead : ofLines dialect lines = .ok (document, warnings))
    (divided : IsDivided dialect lines preamble blocks)
    (dividedToo : IsDivided dialect others preamble shuffled) (same : shuffled.Perm blocks) :
    ∃ outcome, ofLines dialect others = .ok outcome ∧
      Reordered blocks shuffled (document, warnings) outcome := by
  rw [ofLines_eq_ok_iff, splitBlocks_eq_iff.mpr divided] at isRead
  obtain ⟨outcomes, areRead, distinct, isDialect, isNamespace, entities, isWarnings⟩ := isRead
  have : Nonempty (Entity × List Diagnostic) := ⟨(.empty .model "", [])⟩
  obtain ⟨reading, each, rfl⟩ := mapM_eq_ok_iff_exists.mp areRead
  have readToo : shuffled.mapM (Block.read dialect) = .ok (shuffled.map reading) := by
    rw [mapM_eq_ok_iff_exists]
    exact ⟨reading, fun block listed => each block (same.mem_iff.mp listed), rfl⟩
  have names : ((shuffled.map reading).map fun outcome => outcome.1.name).Perm
      ((blocks.map reading).map fun outcome => outcome.1.name) := (same.map _).map _
  have stillDistinct := names.nodup_iff.mpr distinct
  let reordered : Document := {
    dialect
    namespaceName := document.namespaceName
    entities := (shuffled.map reading).map Prod.fst
    distinctNames := by rwa [List.map_map] }
  refine ⟨(reordered, (shuffled.map reading).flatMap Prod.snd), ?_, ?_⟩
  · rw [ofLines_eq_ok_iff, splitBlocks_eq_iff.mpr dividedToo]
    exact ⟨_, readToo, stillDistinct, rfl, isNamespace, rfl, rfl⟩
  · refine @reordered_of_reading _ _ same _ _ isDialect.symm rfl reading ?_ ?_ ?_ ?_
    · simp [entities]
    · simp [reordered]
    · simp [isWarnings, List.flatMap_map]
    · simp [List.flatMap_map]

/-- The dialect of lines does not depend on their order. -/
theorem dialectFor_perm {lines others : List Line} (choice : DialectChoice)
    (same : lines.Perm others) : choice.dialectFor others = choice.dialectFor lines := by
  cases choice with
  | fixed dialect => rfl
  | auto => simp only [DialectChoice.dialectFor, Dialect.detect, same.any_eq]

theorem names_inferForeignKeys (document : Document) :
    document.inferForeignKeys.names = document.names :=
  map_name_mapModel (fun _ => by rfl) _

/-- Foreign keys are inferred alike among reordered entities. -/
theorem inferForeignKeys_reordered {blocks shuffled : List Block} (same : shuffled.Perm blocks)
    {first second : Document × List Diagnostic}
    (reordered : Reordered blocks shuffled first second) (apart : first.1.NamesApart) :
    Reordered blocks shuffled (first.1.inferForeignKeys, first.2)
      (second.1.inferForeignKeys, second.2) := by
  obtain ⟨reading, entities, reread, warnings, others⟩ := reordered.order
  have sameEntities : first.1.entities.Perm second.1.entities := by
    rw [entities, reread]
    exact same.symm.map _
  have infers := inferForeignKey_perm apart reordered.dialect sameEntities
  refine @reordered_of_reading _ _ same _ _ reordered.dialect reordered.namespaceName
    (fun block => ((reading block).1.mapModel fun model =>
      { model with fields := model.fields.map first.1.inferForeignKey }, (reading block).2))
    ?_ ?_ warnings others
  · simp only [inferForeignKeys, mapModels, entities, List.map_map]
    rfl
  · simp only [inferForeignKeys, mapModels, reread, infers, List.map_map]
    rfl

/-- Blocks can change places among lines that say something. -/
theorem ofSpokenLines_reordered {options : ReadingOptions} {lines others preamble : List Line}
    {blocks shuffled : List Block} {document : Document} {warnings : List Diagnostic}
    (isRead : ofSpokenLines options lines = .ok (document, warnings)) (apart : document.NamesApart)
    (divided : IsDivided document.dialect lines preamble blocks)
    (dividedToo : IsDivided document.dialect others preamble shuffled)
    (same : shuffled.Perm blocks) :
    ∃ outcome, ofSpokenLines options others = .ok outcome ∧
      Reordered blocks shuffled (document, warnings) outcome := by
  have sameLines : lines.Perm others := by
    rw [divided.whole, dividedToo.whole]
    exact (same.symm.flatMap_right _).append_left _
  obtain ⟨declared, isDeclared, rfl⟩ := ofSpokenLines_eq_ok_iff.mp isRead
  have isDialect : declared.dialect = options.dialect.dialectFor lines := by
    rw [ofLines_eq_ok_iff] at isDeclared
    obtain ⟨_, _, _, isDialect, _⟩ := isDeclared
    exact isDialect
  have sameDialect : (if options.infersForeignKeys then declared.inferForeignKeys
      else declared).dialect = declared.dialect := by
    split <;> rfl
  rw [sameDialect, isDialect] at divided dividedToo
  obtain ⟨⟨redeclared, found⟩, isRedeclared, reordered⟩ :=
    ofLines_reordered isDeclared divided dividedToo same
  rw [← dialectFor_perm options.dialect sameLines] at isRedeclared
  refine ⟨_, ofSpokenLines_eq_ok_iff.mpr ⟨redeclared, isRedeclared, rfl⟩, ?_⟩
  by_cases infers : options.infersForeignKeys = true
  · simp only [infers, if_true, NamesApart, names_inferForeignKeys] at apart ⊢
    exact inferForeignKeys_reordered same reordered apart
  · simpa only [if_neg infers] using reordered

end Document

/-! ## Lines in another order -/

namespace Surrounding

/-- The lines say what a scan of their texts says. -/
def IsScanned (surrounding : Surrounding) (lines : List Line) : Prop :=
  lines.map Line.said = surrounding.scan (lines.map Line.raw)

theorem length_scan (surrounding : Surrounding) (raws : List Text) :
    (surrounding.scan raws).length = raws.length := by
  induction raws generalizing surrounding with
  | nil => rfl
  | cons raw later inductionHypothesis => simp [scan, inductionHypothesis]

theorem isScanned_append {surrounding : Surrounding} {front back : List Line} :
    surrounding.IsScanned (front ++ back) ↔
      surrounding.IsScanned front ∧ (surrounding.afterAll (front.map Line.raw)).IsScanned back := by
  rw [IsScanned, List.map_append, List.map_append, scan_append, IsScanned, IsScanned]
  constructor
  · intro same
    exact List.append_inj same (by simp [length_scan])
  · rintro ⟨first, second⟩
    rw [first, second]

/-- A line that says something stands outside of comments and fenced code. -/
theorem IsScanned.eq_plain {surrounding : Surrounding} {line : Line} {later : List Line}
    (scanned : surrounding.IsScanned (line :: later)) (speaks : line.isIgnorable = false) :
    surrounding = .plain := by
  by_contra inside
  have isSaid : line.said = surrounding.classify line.raw := (List.cons.inj scanned).1
  have hidden := classify_of_hides (hides_of_ne_plain inside line.raw.trim)
  rw [← isSaid] at hidden
  simp [Line.isIgnorable, show line.kind = .ignorable from hidden] at speaks

/-- Blocks that leave nothing open are scanned one by one. -/
theorem isScanned_blocks_iff {blocks : List Block}
    (closed : ∀ block ∈ blocks, Surrounding.plain.afterAll (block.lines.map Line.raw) = .plain) :
    Surrounding.plain.IsScanned (blocks.flatMap Block.lines) ↔
      ∀ block ∈ blocks, Surrounding.plain.IsScanned block.lines := by
  induction blocks with
  | nil => simp [IsScanned, scan]
  | cons block later inductionHypothesis =>
      obtain ⟨first, rest⟩ := List.forall_mem_cons.mp closed
      rw [List.flatMap_cons, isScanned_append, first, inductionHypothesis rest,
        List.forall_mem_cons]

/-- The lines of a source say in another order of its blocks what a scan of that order says. -/
theorem isScanned_shuffled {preamble : List Line} {blocks shuffled : List Block}
    (same : shuffled.Perm blocks) (headings : ∀ block ∈ blocks, block.heading.isIgnorable = false)
    (closed : ∀ block ∈ blocks, Surrounding.plain.afterAll (block.lines.map Line.raw) = .plain)
    (scanned : Surrounding.plain.IsScanned (preamble ++ blocks.flatMap Block.lines)) :
    Surrounding.plain.IsScanned (preamble ++ shuffled.flatMap Block.lines) := by
  cases blocks with
  | nil => rwa [same.eq_nil]
  | cons block later =>
      obtain ⟨front, behind⟩ := isScanned_append.mp scanned
      have leaves : Surrounding.plain.afterAll (preamble.map Line.raw) = .plain :=
        behind.eq_plain (headings block List.mem_cons_self)
      rw [leaves, isScanned_blocks_iff closed] at behind
      have stillClosed := fun block listed => closed block (same.mem_iff.mp listed)
      rw [isScanned_append, leaves, isScanned_blocks_iff stillClosed]
      exact ⟨front, fun block listed => behind block (same.mem_iff.mp listed)⟩

end Surrounding

/-- The texts that are not blank. -/
def Text.written (raws : List Text) : List Text :=
  raws.filter fun raw => !raw.trim.isEmpty

/-- Blank lines do not change what is said. -/
theorem Surrounding.filter_scan_written (surrounding : Surrounding) (raws : List Text) :
    ((surrounding.scan (Text.written raws)).filter fun said => said.1 != .ignorable) =
      (surrounding.scan raws).filter fun said => said.1 != .ignorable := by
  induction raws generalizing surrounding with
  | nil => rfl
  | cons raw later inductionHypothesis =>
      by_cases isBlank : raw.trim = []
      · obtain ⟨stays, silent⟩ := (Silence.blank isBlank : Silence surrounding [raw]).skips
        have stays : surrounding.after raw.trim = surrounding := stays
        have silent : (surrounding.classify raw).1 = .ignorable := silent _ List.mem_cons_self
        have skipped : Text.written (raw :: later) = Text.written later := by
          simp [Text.written, isBlank]
        rw [skipped, inductionHypothesis, scan, stays]
        simp [silent]
      · have kept : Text.written (raw :: later) = raw :: Text.written later := by
          simp [Text.written, isBlank]
        rw [kept, scan, scan, List.filter_cons, List.filter_cons, inductionHypothesis]

/-! ## Sources in another order -/

/-- The blocks of a division can be put in another order. -/
theorem IsDivided.perm {dialect : Dialect} {lines preamble : List Line}
    {blocks shuffled : List Block} (divided : IsDivided dialect lines preamble blocks)
    (same : shuffled.Perm blocks) :
    IsDivided dialect (preamble ++ shuffled.flatMap Block.lines) preamble shuffled where
  whole := rfl
  preamble := divided.preamble
  headings := fun block listed => divided.headings block (same.mem_iff.mp listed)
  bodies := fun block listed => divided.bodies block (same.mem_iff.mp listed)

/-- Outcomes that follow the lines of blocks which say something follow the blocks. -/
theorem Reordered.of_spoken {blocks shuffled : List Block}
    {first second : Document × List Diagnostic}
    (reordered : Reordered (blocks.map Block.spoken) (shuffled.map Block.spoken) first second) :
    Reordered blocks shuffled first second where
  dialect := reordered.dialect
  namespaceName := reordered.namespaceName
  entities := reordered.entities
  order := by
    obtain ⟨reading, order⟩ := reordered.order
    simp only [List.map_map, List.flatMap_map] at order
    exact ⟨fun block => reading block.spoken, order⟩

/-- The blocks of a source that is read can be put in another order, blank lines aside: the
outcome is the same up to locations, in the order of the blocks. -/
theorem Document.read_reordered {options : ReadingOptions} {source other : Text}
    {document : Document} {warnings : List Diagnostic} {preamble : List Line}
    {blocks shuffled : List Block} (isRead : read options source = .ok (document, warnings))
    (apart : document.NamesApart)
    (divided : splitBlocks document.dialect (readLines source) = (preamble, blocks))
    (closed : ∀ block ∈ blocks, Surrounding.plain.afterAll (block.lines.map Line.raw) = .plain)
    (same : shuffled.Perm blocks)
    (written : Text.written other.rawLines =
      Text.written ((preamble ++ shuffled.flatMap Block.lines).map Line.raw)) :
    ∃ reread others, read options other = .ok (reread, others) ∧
      Reordered blocks shuffled
        (document.withoutLocations, warnings.map Diagnostic.withoutLocations)
        (reread.withoutLocations, others.map Diagnostic.withoutLocations) := by
  rw [splitBlocks_eq_iff] at divided
  rw [read_eq] at isRead
  have scanned : Surrounding.plain.IsScanned (readLines source) := by
    rw [Surrounding.IsScanned, map_said_readLines, map_raw_readLines]
  rw [divided.whole] at scanned
  have rescanned := Surrounding.isScanned_shuffled same
    (fun block listed => isIgnorable_of_opensBlock (divided.headings block listed)) closed scanned
  obtain ⟨⟨reordered, found⟩, isReordered, follows⟩ :=
    ofSpokenLines_reordered isRead apart divided.spoken (divided.perm same).spoken
      (same.map Block.spoken)
  have sameSpeech : (spokenLines other).map Line.said =
      ((preamble ++ shuffled.flatMap Block.lines).filter fun line => !line.isIgnorable).map
        Line.said := by
    have spoken := speech_eq_filter_scan other
    rw [← Surrounding.filter_scan_written, written, Surrounding.filter_scan_written, ← rescanned,
      List.filter_map] at spoken
    exact spoken
  have alike := readAlike_of_map_said options sameSpeech
  rw [isReordered, ← read_eq] at alike
  cases isReread : read options other with
  | error error =>
      rw [isReread] at alike
      cases alike
  | ok outcome =>
      obtain ⟨reread, others⟩ := outcome
      rw [isReread] at alike
      cases alike with
      | read sameDocument sameWarnings =>
          refine ⟨reread, others, rfl, ?_⟩
          rw [sameDocument, sameWarnings]
          exact follows.of_spoken.withoutLocations same

/-- An order that refers to a customer further down, with a section that is not known and a
comment around a heading. -/
def shop : Text :=
  "# Shop
## Order
- customer_id: integer
### Notes
<!--
## Invoice
-->
## Customer".toList

/-- The same blocks with the customer first. -/
def shuffledShop : Text :=
  "# Shop

## Customer

## Order
- customer_id: integer
### Notes
<!--
## Invoice
-->
".toList

/-- The order still refers to the customer. -/
theorem shop_reordered :
    ∃ document warnings reread others,
      Document.read {} shop = .ok (document, warnings) ∧
      Document.read {} shuffledShop = .ok (reread, others) ∧
      document.names = ["Order", "Customer"] ∧ reread.names = ["Customer", "Order"] ∧
      (reread.models.map fun model => model.fields.map Field.referenceTarget) =
        [[], [some "Customer"]] ∧
      Reordered (splitBlocks .current (readLines shop)).2
        (splitBlocks .current (readLines shop)).2.reverse
        (document.withoutLocations, warnings.map Diagnostic.withoutLocations)
        (reread.withoutLocations, others.map Diagnostic.withoutLocations) := by
  have declared : (Document.read {} shop).toOption.map (fun outcome =>
      (outcome.1.dialect, outcome.1.names)) = some (.current, ["Order", "Customer"]) := by
    decide +kernel
  cases isRead : Document.read {} shop with
  | error fault =>
      rw [isRead] at declared
      contradiction
  | ok outcome =>
      obtain ⟨document, warnings⟩ := outcome
      rw [isRead] at declared
      obtain ⟨isDialect, names⟩ := Prod.mk.inj (Option.some.inj declared)
      obtain ⟨reread, others, isReread, reordered⟩ :=
        Document.read_reordered isRead (by rw [Document.NamesApart, names]; decide)
          (by rw [isDialect]) (by decide +kernel) (List.reverse_perm _)
          (by decide +kernel : Text.written shuffledShop.rawLines = _)
      have redeclared : (Document.read {} shuffledShop).toOption.map (fun outcome =>
          (outcome.1.names,
            outcome.1.models.map fun model => model.fields.map Field.referenceTarget)) =
          some (["Customer", "Order"], [[], [some "Customer"]]) := by
        decide +kernel
      rw [isReread] at redeclared
      obtain ⟨namesToo, targets⟩ := Prod.mk.inj (Option.some.inj redeclared)
      exact ⟨document, warnings, reread, others, rfl, isReread, names, namesToo, targets, reordered⟩

end SchemaMarkup
