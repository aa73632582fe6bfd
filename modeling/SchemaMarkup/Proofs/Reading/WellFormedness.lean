import SchemaMarkup.Proofs.Reading.Identifiers
import SchemaMarkup.Proofs.Reading.SourceBlocks

/-!
# Well-formed documents

`Model.IsWellFormed` and `Enumeration.IsWellFormed` say what resolution may rely on when it is given
an entity that was read. Both hold of what a header declares by itself, and every entry of a block
keeps them. `Document.read_isWellFormed` adds what blocks have to do with each other: there is one
entity for each line that opens a block, of the kind and name that the line declares, and no two of
them have the same name.
-/

namespace SchemaMarkup

/-- A field with a type whose names are identifiers. -/
structure Field.IsWellFormed (field : Field) : Prop where
  name : IsIdentifier field.name
  options : ∀ option ∈ field.options, IsIdentifier option.name
  typed : field.typeName ≠ ""

/-- A model that was read: it owns its fields, whatever it names is an identifier, and nothing is
resolved or merged yet. -/
structure Model.IsWellFormed (model : Model) : Prop extends model.OwnsFields where
  name : IsIdentifier model.name
  inherits : ∀ parent ∈ model.inherits, IsIdentifier parent
  fields : ∀ field ∈ model.fields, field.IsWellFormed
  relations : ∀ relation ∈ model.relations, IsIdentifier relation.target
  indexes : ∀ index ∈ model.indexes, index.NamesFields
  resolvedParents : model.resolvedParents = []
  fullFields : model.fullFields = []

/-- An enumeration that was read: its name and those of its values are identifiers, and the values
have distinct names. -/
structure Enumeration.IsWellFormed (enumeration : Enumeration) : Prop where
  name : IsIdentifier enumeration.name
  values : ∀ declared ∈ enumeration.values, IsIdentifier declared.name
  distinct : (enumeration.values.map EnumValue.name).Nodup

/-- What reading makes sure of in the entity of a block. -/
def Entity.IsWellFormed : Entity → Prop
  | .model contents => contents.IsWellFormed
  | .enumeration contents => contents.IsWellFormed

/-- An entity of the kind and name that a heading declares, at the place of the heading. -/
def Dialect.Declares (dialect : Dialect) (heading : Line) (entity : Entity) : Prop :=
  ∃ header, Header.read dialect heading.content = .ok header ∧ entity.kind = header.kind ∧
    entity.name = header.name ∧ entity.location = heading.location

/-- A document that is made of well-formed entities with distinct names, one for each line of the
source that opens a block. -/
structure Document.IsWellFormed (options : ReadingOptions) (source : Text) (document : Document) :
    Prop where
  dialect : document.dialect = options.dialect.dialectFor (readLines source)
  declared : List.Forall₂ document.dialect.Declares
    ((readLines source).filter document.dialect.opensBlock) document.entities
  distinct : (document.entities.map Entity.name).Nodup
  entities : ∀ entity ∈ document.entities, entity.IsWellFormed

/-! ## Items of a model -/

namespace Model

variable {model next : Model}

/-- A field item adds a field with a type, whose names are identifiers. -/
theorem IsWellFormed.addField (wellFormed : model.IsWellFormed) {line : Line}
    {nested : List Line} (run : model.addField line nested = .ok next) : next.IsWellFormed := by
  have owns := wellFormed.toOwnsFields.addField run
  obtain ⟨_, _, field, isRead, isRefined, typed, _, rfl⟩ := addField_eq_ok_iff.mp run
  obtain ⟨refines, _, _, isSplit⟩ := Field.refines_item isRead isRefined
  have added : field.IsWellFormed := {
    name := isIdentifier_splitNameLabel? isSplit
    options := fun option listed => by
      rcases refines.options option listed with isOld | ⟨text, isNew⟩
      · contradiction
      · exact EnumValue.isIdentifier_read isNew
    typed }
  exact { wellFormed with
    toOwnsFields := owns
    fields := List.forall_mem_append.mpr
      ⟨wellFormed.fields, List.forall_mem_singleton.mpr added⟩ }

/-- Directives add constraints that name identifiers. -/
theorem IsWellFormed.addDirectives (wellFormed : model.IsWellFormed)
    {directives : List Directive} (names : ∀ directive ∈ directives, directive.NamesIdentifiers) :
    (directives.foldl addDirective model).IsWellFormed := by
  induction directives generalizing model with
  | nil => exact wellFormed
  | cons directive later inductionHypothesis =>
      obtain ⟨first, names⟩ := List.forall_mem_cons.mp names
      refine inductionHypothesis ?_ names
      cases directive with
      | index declared =>
          exact { wellFormed with
            indexes := List.forall_mem_append.mpr
              ⟨wellFormed.indexes, List.forall_mem_singleton.mpr first⟩ }
      | relation declared =>
          exact { wellFormed with
            relations := List.forall_mem_append.mpr
              ⟨wellFormed.relations, List.forall_mem_singleton.mpr first⟩ }
      | other call => exact { wellFormed with }

/-- The directives of a line name identifiers. -/
theorem namesIdentifiers_readDirectives {dialect : Dialect} {location : Location}
    {calls : List Attribute} {directives : List Directive}
    (run : model.readDirectives dialect location calls = .ok directives) :
    ∀ directive ∈ directives, directive.NamesIdentifiers := by
  intro directive listed
  obtain ⟨call, _, isDeclared⟩ := exists_of_forall₂_of_mem (forall₂_readDirectives run) listed
  exact Directive.namesIdentifiers_ofAttribute isDeclared

theorem IsWellFormed.addDirectiveLine (wellFormed : model.IsWellFormed) {dialect : Dialect}
    {line : Line} {nested : List Line}
    (run : model.addDirectiveLine dialect line nested = .ok next) : next.IsWellFormed := by
  simp only [Model.addDirectiveLine, bind_eq_ok_iff, atLocation_eq_ok_iff] at run
  obtain ⟨directives, ⟨calls, _, areRead⟩, run⟩ := run
  have names := namesIdentifiers_readDirectives areRead
  split at run
  · next outcome isOutcome =>
      simp only [bind_eq_ok_iff, pure_eq_ok_iff] at run
      obtain ⟨refined, rfl, rfl⟩ := run
      refine wellFormed.addDirectives (refineLastConstraint_keeps _ ?_ isOutcome names)
      intro directive changed isRefined named
      refine foldlM_keeps Directive.NamesIdentifiers (fun _ _ _ step =>
        Directive.namesIdentifiers_refine (atLocation_eq_ok_iff.mp step)) isRefined ?_
      cases line.content.splitDescription.2 with
      | none => exact named
      | some description => exact Directive.namesIdentifiers_describe named
  · rw [pure_eq_ok_iff] at run
    exact run ▸ wellFormed.addDirectives names
  · simp only [throw_eq_ok_iff] at run

theorem IsWellFormed.addRelation (wellFormed : model.IsWellFormed) {dialect : Dialect}
    {line : Line} {nested : List Line} (run : model.addRelation dialect line nested = .ok next) :
    next.IsWellFormed := by
  simp only [Model.addRelation, bind_eq_ok_iff, atLocation_eq_ok_iff] at run
  obtain ⟨declared, isRead, run⟩ := run
  split at run
  · next declared =>
      simp only [bind_eq_ok_iff, pure_eq_ok_iff] at run
      obtain ⟨relation, isRefined, _, _, rfl⟩ := run
      have identifier : IsIdentifier relation.target :=
        foldlM_keeps (fun relation : Relation => IsIdentifier relation.target)
          (fun _ _ _ step named =>
            (Relation.target_refine (atLocation_eq_ok_iff.mp step)).symm ▸ named)
          isRefined (Relation.isIdentifier_readLine isRead)
      exact { wellFormed with
        relations := List.forall_mem_append.mpr
          ⟨wellFormed.relations, List.forall_mem_singleton.mpr identifier⟩ }
  · simp only [throw_eq_ok_iff] at run

theorem IsWellFormed.addIndex (wellFormed : model.IsWellFormed) {dialect : Dialect}
    {line : Line} {nested : List Line} (run : model.addIndex dialect line nested = .ok next) :
    next.IsWellFormed := by
  simp only [Model.addIndex, bind_eq_ok_iff, pure_eq_ok_iff, atLocation_eq_ok_iff] at run
  obtain ⟨declared, isRead, index, isRefined, _, _, rfl⟩ := run
  have names : index.NamesFields :=
    foldlM_keeps Index.NamesFields
      (fun _ _ _ step => Index.namesFields_refine (atLocation_eq_ok_iff.mp step))
      isRefined (Index.namesFields_readLine isRead)
  exact { wellFormed with
    indexes := List.forall_mem_append.mpr
      ⟨wellFormed.indexes, List.forall_mem_singleton.mpr names⟩ }

theorem IsWellFormed.addMetadata (wellFormed : model.IsWellFormed) {line : Line}
    {nested : List Line} (run : model.addMetadata line nested = .ok next) :
    next.IsWellFormed := by
  rw [Model.addMetadata.eq_def] at run
  split at run
  · contradiction
  · contradiction
  · cases run
    exact { wellFormed with }

theorem IsWellFormed.addItem (wellFormed : model.IsWellFormed) {dialect : Dialect}
    {bodySection : BodySection} {line : Line} {nested : List Line}
    (run : model.addItem dialect bodySection line nested = .ok next) : next.IsWellFormed := by
  simp only [Model.addItem] at run
  split at run
  · exact wellFormed.addDirectiveLine run
  · cases bodySection with
    | fields => exact wellFormed.addField run
    | relations => exact wellFormed.addRelation run
    | indexes => exact wellFormed.addIndex run
    | metadata => exact wellFormed.addMetadata run
    | unknown => exact Except.ok.inj run ▸ wellFormed

/-- Every entry keeps a model well formed. -/
theorem Progress.isWellFormed_add {dialect : Dialect} {progress next : Progress} {entry : Entry}
    (run : progress.add dialect entry = .ok next) (wellFormed : progress.model.IsWellFormed) :
    next.model.IsWellFormed := by
  cases entry with
  | sectionHeading line =>
      simp only [add] at run
      split at run <;> exact Except.ok.inj run ▸ wellFormed
  | quote line => exact Except.ok.inj run ▸ { wellFormed with }
  | item depth line nested =>
      simp only [add] at run
      split at run
      · exact Except.ok.inj run ▸ wellFormed
      · split at run
        · contradiction
        · simp only [bind_eq_ok_iff, pure_eq_ok_iff] at run
          obtain ⟨model, added, rfl⟩ := run
          exact wellFormed.addItem added

/-- A model that has nothing but its header is well formed if the header names identifiers. -/
theorem isWellFormed_of_header (name : IsIdentifier model.name)
    (inherits : ∀ parent ∈ model.inherits, IsIdentifier parent) (noField : model.fields = [])
    (noRelation : model.relations = []) (noIndex : model.indexes = [])
    (resolvedParents : model.resolvedParents = []) (fullFields : model.fullFields = []) :
    model.IsWellFormed where
  toOwnsFields := ownsFields_of_nil noField
  name := name
  inherits := inherits
  fields := by simp [noField]
  relations := by simp [noRelation]
  indexes := by simp [noIndex]
  resolvedParents := resolvedParents
  fullFields := fullFields

/-- Attributes name nothing. -/
theorem IsWellFormed.withAttributes (wellFormed : model.IsWellFormed)
    (attributes : List Attribute) : IsWellFormed { model with attributes } :=
  { wellFormed with }

/-- A model that was read is well formed. -/
theorem isWellFormed_of_read {dialect : Dialect} {kind : ModelKind} {header : Header}
    {location : Location} {entries : List Entry} {warnings : List Diagnostic}
    (name : IsIdentifier header.name) (inherits : ∀ parent ∈ header.inherits, IsIdentifier parent)
    (run : Model.read dialect kind header location entries = .ok (model, warnings)) :
    model.IsWellFormed := by
  simp only [Model.read, bind_eq_ok_iff, pure_eq_ok_iff, Prod.mk.injEq] at run
  obtain ⟨start, started, progress, added, rfl, rfl⟩ := run
  refine foldlM_keeps (fun progress => progress.model.IsWellFormed)
    (fun _ _ _ => Progress.isWellFormed_add) added ?_
  simp only [ofHeader, bind_eq_ok_iff, pure_eq_ok_iff, atLocation_eq_ok_iff] at started
  obtain ⟨directives, areRead, rfl⟩ := started
  refine IsWellFormed.withAttributes (IsWellFormed.addDirectives ?_ ?_) _
  · exact isWellFormed_of_header name inherits rfl rfl rfl rfl rfl
  · exact namesIdentifiers_readDirectives areRead

end Model

/-! ## Items of an enumeration -/

namespace Enumeration

variable {enumeration next : Enumeration}

theorem IsWellFormed.of_sameValues (wellFormed : enumeration.IsWellFormed)
    (same : enumeration.SameValues next) : next.IsWellFormed where
  name := same.name ▸ wellFormed.name
  values := same.values ▸ wellFormed.values
  distinct := same.values ▸ wellFormed.distinct

/-- An item adds a value with a new name, which is an identifier. -/
theorem IsWellFormed.addValue (wellFormed : enumeration.IsWellFormed) {group : Option String}
    {line : Line} {nested : List Line}
    (run : enumeration.addValue group line nested = .ok next) : next.IsWellFormed := by
  obtain ⟨declared, added, isRead, isRefined, isNew, rfl⟩ := addValue_eq_ok_iff.mp run
  have named : added.name = declared.name :=
    foldlM_keeps (fun refined : EnumValue => refined.name = declared.name)
      (fun _ _ _ step named => (EnumValue.name_refine step).trans named) isRefined rfl
  have identifier : IsIdentifier added.name := named ▸ EnumValue.isIdentifier_read isRead
  exact {
    name := wellFormed.name
    values := List.forall_mem_append.mpr
      ⟨wellFormed.values, List.forall_mem_singleton.mpr identifier⟩
    distinct := by
      rw [List.map_append, List.map_singleton, ← List.concat_eq_append, List.nodup_concat]
      exact ⟨isNew, wellFormed.distinct⟩ }

/-- Every entry keeps an enumeration well formed. -/
theorem Progress.isWellFormed_add {progress next : Progress} {entry : Entry}
    (run : progress.add entry = .ok next) (wellFormed : progress.enumeration.IsWellFormed) :
    next.enumeration.IsWellFormed := by
  rcases Progress.add_cases run with ⟨_, _, _, _, _, _, declares⟩ | ⟨_, same⟩
  · exact wellFormed.addValue declares
  · exact wellFormed.of_sameValues same

/-- An enumeration that was read is well formed. -/
theorem isWellFormed_of_read {header : Header} {location : Location} {entries : List Entry}
    (name : IsIdentifier header.name)
    (run : Enumeration.read header location entries = .ok enumeration) :
    enumeration.IsWellFormed := by
  obtain ⟨_, progress, added, rfl⟩ := read_eq_ok_iff.mp run
  exact foldlM_keeps (fun progress : Progress => progress.enumeration.IsWellFormed)
    (fun _ _ _ => Progress.isWellFormed_add) added
    { name, values := by simp, distinct := by simp }

end Enumeration

/-! ## Blocks -/

/-- The entity that a block declares by itself is well formed, and of the kind and name that the
heading declares. -/
theorem Block.isWellFormed_of_read {dialect : Dialect} {block : Block} {entity : Entity}
    {warnings : List Diagnostic} (isRead : block.read dialect = .ok (entity, warnings)) :
    dialect.Declares block.heading entity ∧ entity.IsWellFormed := by
  obtain ⟨header, isHeader, reads⟩ := Block.reads_of_read isRead
  obtain ⟨name, inherits⟩ := Header.isIdentifier_read isHeader
  cases reads with
  | model isKind isModel =>
      have same := Model.sameHead_read isModel
      refine ⟨⟨header, isHeader, ?_, same.name, same.location⟩,
        Model.isWellFormed_of_read name inherits isModel⟩
      rw [Entity.kind, same.kind]
      exact isKind.symm
  | enumeration isKind isEnumeration =>
      have same := Enumeration.sameHead_read isEnumeration
      exact ⟨⟨header, isHeader, isKind.symm, same.name, same.location⟩,
        Enumeration.isWellFormed_of_read name isEnumeration⟩

/-- The blocks of some lines start at the lines that open one. -/
theorem IsDivided.filter_opensBlock {dialect : Dialect} {lines preamble : List Line}
    {blocks : List Block} (divided : IsDivided dialect lines preamble blocks) :
    lines.filter dialect.opensBlock = blocks.map Block.heading := by
  have noBlock : preamble.filter dialect.opensBlock = [] := by
    simpa [List.filter_eq_nil_iff] using divided.preamble
  rw [divided.whole, List.filter_append, noBlock, List.nil_append, List.filter_flatMap,
    ← List.flatMap_pure_eq_map]
  refine List.flatMap_congr fun block listed => ?_
  rw [Block.lines, List.filter_cons_of_pos (divided.headings block listed),
    List.filter_eq_nil_iff.mpr (by simpa using divided.bodies block listed)]
  rfl

/-! ## Documents -/

namespace Document

/-- To look for foreign keys changes nothing that a heading declares. -/
theorem declares_inferEntity (document : Document) {dialect : Dialect} {heading : Line}
    {entity : Entity} (declares : dialect.Declares heading entity) :
    dialect.Declares heading (document.inferEntity entity) := by
  cases entity <;> exact declares

/-- To look for foreign keys leaves entities well formed. -/
theorem isWellFormed_inferEntity (document : Document) {entity : Entity}
    (wellFormed : entity.IsWellFormed) : (document.inferEntity entity).IsWellFormed := by
  cases entity with
  | enumeration contents => exact wellFormed
  | model contents =>
      have inferred : ∀ field : Field, field.IsWellFormed →
          (document.inferForeignKey field).IsWellFormed := by
        intro field wellFormed
        rw [inferForeignKey]
        split
        · exact { wellFormed with }
        · exact wellFormed
      have owns : Model.OwnsFields { contents with
          fields := contents.fields.map document.inferForeignKey } :=
        wellFormed.toOwnsFields.mapFields rfl rfl document.sameOrigin_inferForeignKey
      exact { wellFormed with
        toOwnsFields := owns
        fields := List.forall_mem_map.mpr fun field listed =>
          inferred field (wellFormed.fields field listed) }

/-- Every document that was read is well formed. -/
theorem read_isWellFormed {options : ReadingOptions} {source : Text} {document : Document}
    {warnings : List Diagnostic} (isRead : read options source = .ok (document, warnings)) :
    document.IsWellFormed options source := by
  obtain ⟨preamble, blocks, divided, entities⟩ := @forall₂_blocks_of_read options source document
    warnings (fun dialect block entity =>
      dialect.Declares block.heading entity ∧ entity.IsWellFormed)
    (fun _ block _ _ _ isEntity => block.spoken.isWellFormed_of_read isEntity)
    (fun declared _ _ entity ⟨declares, wellFormed⟩ =>
      ⟨declared.declares_inferEntity declares, declared.isWellFormed_inferEntity wellFormed⟩)
    isRead
  exact {
    dialect := dialect_of_read isRead
    declared := by
      rw [divided.filter_opensBlock, List.forall₂_map_left_iff]
      exact entities.imp fun _ _ => And.left
    distinct := document.distinctNames
    entities := fun entity listed => by
      obtain ⟨block, _, _, wellFormed⟩ := exists_of_forall₂_of_mem entities listed
      exact wellFormed }

/-- An interface, a model with constraints in every form, a field with options and an
enumeration. -/
def library : Text :=
  "## Named ::interface
- name: string
## Author : Named @index(name)
- title
  - type: string?
- @relation(agent, ->Author)
### Relations
- <Book as books
### Indexes
- by_title: title
  - fields: title, name
## Book
- form: enum(Novel | Essay)
## Tone ::enum
- Warm".toList

/-- Each heading has its entity. The relations and indexes name what the lines say. -/
theorem library_isWellFormed :
    ∃ document warnings, read {} library = .ok (document, warnings) ∧
      (document.entities.map fun entity => (entity.kind, entity.name)) =
        [(.interface, "Named"), (.model, "Author"), (.model, "Book"), (.enumeration, "Tone")] ∧
      (document.models.flatMap fun model =>
        model.relations.map Relation.target ++ model.indexes.flatMap Index.fields) =
          ["Author", "Book", "name", "title", "name"] ∧
      document.IsWellFormed {} library := by
  have declared : (read {} library).map (fun outcome =>
      (outcome.1.entities.map fun entity => (entity.kind, entity.name),
        outcome.1.models.flatMap fun model =>
          model.relations.map Relation.target ++ model.indexes.flatMap Index.fields)) =
      .ok ([(.interface, "Named"), (.model, "Author"), (.model, "Book"), (.enumeration, "Tone")],
        ["Author", "Book", "name", "title", "name"]) := by
    decide +kernel
  obtain ⟨⟨document, warnings⟩, isRead, shown⟩ := map_eq_ok_iff.mp declared
  obtain ⟨entities, referred⟩ := Prod.mk.inj shown
  exact ⟨document, warnings, isRead, entities, referred, read_isWellFormed isRead⟩

end Document

end SchemaMarkup
