import SchemaMarkup.Proofs.Locations.DocumentReading
import SchemaMarkup.Proofs.Reading.Blocks

/-!
# Blocks of a source

The blocks of a source are those of all its lines, the ones that say nothing among them. Reading
passes over such lines, reads each block by itself and looks for foreign keys among the fields. So
whatever a block by itself says of its entity, and no foreign key takes away, holds of the entities
of a document, one behind the other in the order of the blocks (`Document.forall₂_blocks_of_read`).
-/

namespace SchemaMarkup

/-- The lines of a block are among those that were divided. -/
theorem IsDivided.lines_subset {dialect : Dialect} {lines preamble : List Line}
    {blocks : List Block} (divided : IsDivided dialect lines preamble blocks) {block : Block}
    (listed : block ∈ blocks) : block.lines ⊆ lines := by
  intro line isLine
  rw [divided.whole]
  exact List.mem_append_right _ (List.mem_flatMap.mpr ⟨block, listed, isLine⟩)

namespace Document

/-- What is read from lines that say something: what they declare, with foreign keys if these are
asked for. -/
theorem ofSpokenLines_eq_ok_iff {options : ReadingOptions} {lines : List Line}
    {document : Document} {warnings : List Diagnostic} :
    ofSpokenLines options lines = .ok (document, warnings) ↔
      ∃ declared, ofLines (options.dialect.dialectFor lines) lines = .ok (declared, warnings) ∧
        document = if options.infersForeignKeys then declared.inferForeignKeys else declared := by
  simp only [ofSpokenLines, bind_eq_ok_iff, Prod.exists]
  constructor
  · rintro ⟨declared, found, isDeclared, run⟩
    split at run
    · next infers =>
      obtain ⟨rfl, rfl⟩ := Prod.mk.inj (pure_eq_ok_iff.mp run)
      exact ⟨declared, isDeclared, (if_pos infers).symm⟩
    · next infersNone =>
      obtain ⟨rfl, rfl⟩ := Prod.mk.inj (pure_eq_ok_iff.mp run)
      exact ⟨declared, isDeclared, (if_neg infersNone).symm⟩
  · rintro ⟨declared, isDeclared, rfl⟩
    refine ⟨declared, warnings, isDeclared, ?_⟩
    split <;> rfl

/-- A document is in the dialect that is chosen for its source. -/
theorem dialect_of_read {options : ReadingOptions} {source : Text} {document : Document}
    {warnings : List Diagnostic} (isRead : read options source = .ok (document, warnings)) :
    document.dialect = options.dialect.dialectFor (readLines source) := by
  rw [read_eq, ofSpokenLines_eq_ok_iff] at isRead
  obtain ⟨declared, isDeclared, rfl⟩ := isRead
  obtain ⟨_, _, _, isDialect, _⟩ := ofLines_eq_ok_iff.mp isDeclared
  rw [spokenLines, dialectFor_spoken] at isDialect
  rw [← isDialect]
  split <;> rfl

/-- The entity with those of its fields as foreign keys that refer to a model by their names. -/
def inferEntity (document : Document) (entity : Entity) : Entity :=
  entity.mapModel fun model => { model with fields := model.fields.map document.inferForeignKey }

/-- What each block by itself says of its entity, and no foreign key takes away, holds of the
entities of a document that was read, in the order of the blocks. -/
theorem forall₂_blocks_of_read {options : ReadingOptions} {source : Text} {document : Document}
    {warnings : List Diagnostic} {holds : Dialect → Block → Entity → Prop}
    (ofBlock : ∀ dialect block entity found, (∀ line ∈ block.body, line.depth? ≠ some 0) →
      block.spoken.read dialect = .ok (entity, found) → holds dialect block entity)
    (ofKeys : ∀ (declared : Document) dialect block entity, holds dialect block entity →
      holds dialect block (declared.inferEntity entity))
    (isRead : read options source = .ok (document, warnings)) :
    ∃ preamble blocks, IsDivided document.dialect (readLines source) preamble blocks ∧
      List.Forall₂ (holds document.dialect) blocks document.entities := by
  rw [read_eq, ofSpokenLines_eq_ok_iff] at isRead
  obtain ⟨declared, isDeclared, rfl⟩ := isRead
  rw [ofLines_eq_ok_iff] at isDeclared
  obtain ⟨outcomes, areRead, _, isDialect, _, entities, _⟩ := isDeclared
  have sameDialect : (if options.infersForeignKeys then declared.inferForeignKeys
      else declared).dialect = declared.dialect := by
    split <;> rfl
  rw [sameDialect]
  rw [← isDialect] at areRead
  have divided := isDivided_splitBlocks declared.dialect (readLines source)
  rw [show spokenLines source = (readLines source).filter fun line => !line.isIgnorable from rfl,
    splitBlocks_eq_iff.mpr divided.spoken, mapM_eq_ok_iff, List.forall₂_map_left_iff] at areRead
  have ofBlocks : List.Forall₂ (holds declared.dialect)
      (splitBlocks declared.dialect (readLines source)).2 declared.entities := by
    rw [entities, List.forall₂_map_right_iff]
    have noRoot : ∀ block ∈ (splitBlocks declared.dialect (readLines source)).2,
        ∀ line ∈ block.body, line.depth? ≠ some 0 := fun block listed line inBody =>
      depth?_readLines source line
        (divided.lines_subset listed (List.mem_cons_of_mem block.heading inBody))
    refine ((List.forall₂_and_left _ _).mpr ⟨noRoot, areRead⟩).imp ?_
    rintro block ⟨entity, found⟩ ⟨depths, isRead⟩
    exact ofBlock _ block entity found depths isRead
  refine ⟨_, _, divided, ?_⟩
  split
  · have entities : declared.inferForeignKeys.entities =
        declared.entities.map declared.inferEntity := rfl
    rw [entities, List.forall₂_map_right_iff]
    exact ofBlocks.imp (ofKeys declared _)
  · exact ofBlocks

/-- What reading makes sure of in a model holds of the models that lines declare. -/
theorem forall_models_of_ofLines {dialect : Dialect} {lines : List Line} {document : Document}
    {warnings : List Diagnostic} {holds : Model → Prop}
    (ofModel : ∀ kind header location entries model found,
      Model.read dialect kind header location entries = .ok (model, found) → holds model)
    (isRead : ofLines dialect lines = .ok (document, warnings)) :
    ∀ model ∈ document.models, holds model := by
  rw [ofLines_eq_ok_iff] at isRead
  obtain ⟨outcomes, areRead, _, _, _, entities, _⟩ := isRead
  intro model listed
  rw [mem_models_iff, entities] at listed
  obtain ⟨⟨_, found⟩, isOutcome, rfl⟩ := List.mem_map.mp listed
  obtain ⟨block, _, isBlock⟩ := exists_of_mem_mapM areRead isOutcome
  obtain ⟨header, _, reads⟩ := Block.reads_of_read isBlock
  cases reads with
  | model _ isModel => exact ofModel _ _ _ _ model found isModel

/-- What reading makes sure of in a model, and no foreign key takes away, holds of the models of a
document that was read. -/
theorem forall_models_of_read {options : ReadingOptions} {source : Text} {document : Document}
    {warnings : List Diagnostic} {holds : Model → Prop}
    (ofModel : ∀ dialect kind header location entries model found,
      Model.read dialect kind header location entries = .ok (model, found) → holds model)
    (ofKeys : ∀ (declared : Document) (model : Model), holds model →
      holds { model with fields := model.fields.map declared.inferForeignKey })
    (isRead : read options source = .ok (document, warnings)) :
    ∀ model ∈ document.models, holds model := by
  rw [read_eq, ofSpokenLines_eq_ok_iff] at isRead
  obtain ⟨declared, isDeclared, rfl⟩ := isRead
  have ofLines := forall_models_of_ofLines (ofModel _) isDeclared
  split
  · intro model listed
    rw [inferForeignKeys, models_mapModels] at listed
    obtain ⟨before, isBefore, rfl⟩ := List.mem_map.mp listed
    exact ofKeys declared before (ofLines before isBefore)
  · exact ofLines

end Document

end SchemaMarkup
