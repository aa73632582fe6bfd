import SchemaMarkup.Proofs.Reading.DeclaredFields
import SchemaMarkup.Proofs.Reading.ValueLines

/-!
# Documents as lists of blocks

Reading goes over the blocks of a source twice, first over all headings and then over all
bodies. `Document.ofLines_eq_ok_iff` says what comes of it in terms of single blocks: each block is
read by itself (`Block.read`), no two of them declare the same name, and the document lists
their entities in order. So the only thing that one block has to do with another is its name.
-/

namespace SchemaMarkup

/-! ## The name of an entity -/

namespace Model

theorem sameHead_addField {model next : Model} {line : Line} {nested : List Line}
    (run : model.addField line nested = .ok next) : model.SameHead next := by
  obtain ⟨_, _, _, _, _, _, _, rfl⟩ := addField_eq_ok_iff.mp run
  exact ⟨rfl, rfl, rfl, rfl, rfl, rfl⟩

theorem Progress.sameHead_add {dialect : Dialect} {progress next : Progress} {entry : Entry}
    (run : progress.add dialect entry = .ok next) : progress.model.SameHead next.model := by
  rcases Progress.add_cases run with ⟨_, _, _, _, _, _, declares⟩ | ⟨_, same⟩
  · exact sameHead_addField declares
  · exact same.toSameHead

/-- A model has the name, the kind and the parents that its header declares, and its place. -/
theorem sameHead_read {dialect : Dialect} {kind : ModelKind} {header : Header}
    {location : Location} {entries : List Entry} {model : Model} {warnings : List Diagnostic}
    (run : Model.read dialect kind header location entries = .ok (model, warnings)) :
    SameHead { name := header.name, kind, inherits := header.inherits, location } model := by
  simp only [Model.read, bind_eq_ok_iff, pure_eq_ok_iff, Prod.mk.injEq] at run
  obtain ⟨start, started, progress, added, rfl, rfl⟩ := run
  simp only [ofHeader, bind_eq_ok_iff, pure_eq_ok_iff] at started
  obtain ⟨directives, _, rfl⟩ := started
  refine foldlM_keeps (fun progress => SameHead _ progress.model)
    (fun _ _ _ step kept => kept.trans (Progress.sameHead_add step)) added ?_
  have same := fun start => (sameFields_addDirectives start directives).toSameHead
  exact ⟨(same _).name, (same _).kind, (same _).inherits, (same _).resolvedParents,
    (same _).fullFields, (same _).location⟩

end Model

namespace Declaration

/-- The name that the heading declares. -/
def name (declaration : Declaration) : String :=
  declaration.header.name

/-- An entity has the name that its heading declares. -/
theorem name_readEntity {dialect : Dialect} {declaration : Declaration} {entity : Entity}
    {warnings : List Diagnostic}
    (run : declaration.readEntity dialect = .ok (entity, warnings)) :
    entity.name = declaration.name := by
  cases reads_of_readEntity run with
  | model _ isRead => exact (Model.sameHead_read isRead).name
  | enumeration _ isRead => exact (Enumeration.sameHead_read isRead).name

/-- Entities have the names that their headings declare. -/
theorem map_name_of_mapM {dialect : Dialect} {declarations : List Declaration}
    {outcomes : List (Entity × List Diagnostic)}
    (run : declarations.mapM (readEntity dialect) = .ok outcomes) :
    (outcomes.map fun outcome => outcome.1.name) = declarations.map name := by
  rw [mapM_eq_ok_iff] at run
  induction run with
  | nil => rfl
  | cons isRead _ inductionHypothesis =>
      rw [List.map_cons, List.map_cons, inductionHypothesis, name_readEntity isRead]

end Declaration

/-! ## Blocks by themselves -/

namespace Block

/-- Reads the heading of a block. -/
def declaration (dialect : Dialect) (block : Block) : Except SchemaError Declaration := do
  let header ← atLocation block.heading.location (Header.read dialect block.heading.content)
  return { header, block }

/-- Reads the entity of a block, with the warnings on the way. -/
def read (dialect : Dialect) (block : Block) : Except SchemaError (Entity × List Diagnostic) := do
  let declaration ← block.declaration dialect
  declaration.readEntity dialect

/-- A block that is read by itself is read under its heading. -/
theorem reads_of_read {dialect : Dialect} {block : Block} {entity : Entity}
    {warnings : List Diagnostic} (isRead : block.read dialect = .ok (entity, warnings)) :
    ∃ header, Header.read dialect block.heading.content = .ok header ∧
      Declaration.Reads dialect { header, block } entity warnings := by
  simp only [read, bind_eq_ok_iff] at isRead
  obtain ⟨_, isDeclared, isRead⟩ := isRead
  simp only [declaration, bind_eq_ok_iff, pure_eq_ok_iff, atLocation_eq_ok_iff] at isDeclared
  obtain ⟨header, isHeader, rfl⟩ := isDeclared
  exact ⟨header, isHeader, Declaration.reads_of_readEntity isRead⟩

end Block

namespace Declaration

/-- A heading is read behind others if it declares a name that none of them does. -/
theorem readAllAfter_cons_eq_ok_iff {dialect : Dialect} {earlier declarations : List Declaration}
    {block : Block} {later : List Block} :
    readAllAfter dialect earlier (block :: later) = .ok declarations ↔
      ∃ declaration, block.declaration dialect = .ok declaration ∧
        declaration.name ∉ earlier.map name ∧
        ∃ others, readAllAfter dialect (earlier ++ [declaration]) later = .ok others ∧
          declarations = declaration :: others := by
  simp only [readAllAfter, Block.declaration, bind_eq_ok_iff, pure_eq_ok_iff]
  constructor
  · rintro ⟨header, isHeader, run⟩
    split at run
    · simp only [bind_eq_ok_iff, throw_eq_ok_iff, false_and, exists_false] at run
    · next isNew =>
      simp only [bind_eq_ok_iff, pure_eq_ok_iff] at run
      obtain ⟨others, areRead, rfl⟩ := run
      refine ⟨_, ⟨header, isHeader, rfl⟩, ?_, others, areRead, rfl⟩
      intro taken
      obtain ⟨other, listed, same⟩ := List.mem_map.mp taken
      have absent := List.find?_eq_none.mp (Option.eq_none_iff_forall_not_mem.mpr isNew)
      exact absent other listed (by simpa [name] using same)
  · rintro ⟨_, ⟨header, isHeader, rfl⟩, isNew, others, areRead, rfl⟩
    have absent : (earlier.find? fun other => other.header.name == header.name) = none := by
      simpa [List.find?_eq_none, name] using isNew
    refine ⟨header, isHeader, ?_⟩
    simp only [absent, areRead]
    rfl

/-- The headings of blocks are read if each of them is and all declare distinct names. -/
theorem readAllAfter_eq_ok_iff {dialect : Dialect} {earlier : List Declaration}
    {blocks : List Block} {declarations : List Declaration}
    (distinct : (earlier.map name).Nodup) :
    readAllAfter dialect earlier blocks = .ok declarations ↔
      blocks.mapM (Block.declaration dialect) = .ok declarations ∧
        ((earlier ++ declarations).map name).Nodup := by
  induction blocks generalizing earlier declarations with
  | nil =>
      simp only [readAllAfter, List.mapM_nil, pure_eq_ok_iff, Except.ok.injEq]
      constructor
      · rintro rfl
        simpa using distinct
      · exact And.left
  | cons block later inductionHypothesis =>
      simp only [readAllAfter_cons_eq_ok_iff, List.mapM_cons, bind_eq_ok_iff, pure_eq_ok_iff]
      have regroup : ∀ (declaration : Declaration) (others : List Declaration),
          earlier ++ declaration :: others = earlier ++ [declaration] ++ others := by simp
      constructor
      · rintro ⟨declaration, isRead, isNew, others, areRead, rfl⟩
        have stillDistinct : ((earlier ++ [declaration]).map name).Nodup := by
          rw [List.map_append, List.map_singleton, ← List.concat_eq_append, List.nodup_concat]
          exact ⟨isNew, distinct⟩
        rw [inductionHypothesis stillDistinct] at areRead
        exact ⟨⟨declaration, isRead, others, areRead.1, rfl⟩, by rw [regroup]; exact areRead.2⟩
      · rintro ⟨⟨declaration, isRead, others, areRead, rfl⟩, allDistinct⟩
        rw [regroup] at allDistinct
        have stillDistinct : ((earlier ++ [declaration]).map name).Nodup :=
          allDistinct.sublist ((List.sublist_append_left _ others).map name)
        refine ⟨declaration, isRead, ?_, others, ?_, rfl⟩
        · rw [List.map_append, List.map_singleton, ← List.concat_eq_append,
            List.nodup_concat] at stillDistinct
          exact stillDistinct.1
        · exact (inductionHypothesis stillDistinct).mpr ⟨areRead, allDistinct⟩

end Declaration

namespace Document

/-- Entities with new and distinct names are put in one behind the other. -/
theorem insertAll_of_distinct {document : Document} {entities : List (Entity × List Diagnostic)}
    (distinct : (document.names ++ entities.map fun entity => entity.1.name).Nodup) :
    let inserted := entities.foldl (fun document entity => document.insert entity.1) document
    inserted.dialect = document.dialect ∧ inserted.namespaceName = document.namespaceName ∧
      inserted.entities = document.entities ++ entities.map Prod.fst := by
  induction entities generalizing document with
  | nil => simp
  | cons entity later inductionHypothesis =>
      have isNew : entity.1.name ∉ document.names := fun listed =>
        List.nodup_append.mp distinct |>.2.2 _ listed _ List.mem_cons_self rfl
      have entities := entities_insert_of_new isNew
      have rest := @inductionHypothesis (document.insert entity.1) (by
        rw [names, entities]
        simpa [names] using distinct)
      simpa [entities] using rest

/-- A document is read if its blocks are, one by one, and their entities have distinct names. It
lists the entities in the order of the blocks. -/
theorem ofLines_eq_ok_iff {dialect : Dialect} {lines : List Line} {document : Document}
    {warnings : List Diagnostic} :
    ofLines dialect lines = .ok (document, warnings) ↔
      ∃ outcomes, (splitBlocks dialect lines).2.mapM (Block.read dialect) = .ok outcomes ∧
        (outcomes.map fun outcome => outcome.1.name).Nodup ∧
        document.dialect = dialect ∧
        document.namespaceName = dialect.namespaceName? (splitBlocks dialect lines).1 ∧
        document.entities = outcomes.map Prod.fst ∧ warnings = outcomes.flatMap Prod.snd := by
  have distinctNone : (([] : List Declaration).map Declaration.name).Nodup := List.nodup_nil
  have inTwoSteps : ∀ outcomes, (splitBlocks dialect lines).2.mapM (Block.read dialect) =
        .ok outcomes ↔ ∃ declarations,
      (splitBlocks dialect lines).2.mapM (Block.declaration dialect) = .ok declarations ∧
        declarations.mapM (Declaration.readEntity dialect) = .ok outcomes :=
    fun outcomes => mapM_bind_eq_ok_iff
  simp only [ofLines, bind_eq_ok_iff, pure_eq_ok_iff, Prod.mk.injEq,
    Declaration.readAllAfter_eq_ok_iff distinctNone, List.nil_append, inTwoSteps]
  let start := empty dialect (dialect.namespaceName? (splitBlocks dialect lines).1)
  constructor
  · rintro ⟨declarations, ⟨areRead, distinct⟩, outcomes, entities, rfl, rfl⟩
    rw [← Declaration.map_name_of_mapM entities] at distinct
    have inserted := @insertAll_of_distinct start outcomes (by simpa [start, names] using distinct)
    exact ⟨outcomes, ⟨declarations, areRead, entities⟩, distinct, inserted.1, inserted.2.1,
      by simpa [start] using inserted.2.2, rfl⟩
  · rintro ⟨outcomes, ⟨declarations, areRead, entities⟩, distinct, isDialect, isNamespace,
      isListed, rfl⟩
    have inserted := @insertAll_of_distinct start outcomes (by simpa [start, names] using distinct)
    rw [Declaration.map_name_of_mapM entities] at distinct
    refine ⟨declarations, ⟨areRead, distinct⟩, outcomes, entities, ?_, rfl⟩
    refine ext_entities (inserted.1.trans isDialect.symm) (inserted.2.1.trans isNamespace.symm) ?_
    rw [inserted.2.2, isListed]
    rfl

end Document

end SchemaMarkup
