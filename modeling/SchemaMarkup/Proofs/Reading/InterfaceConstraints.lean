import SchemaMarkup.Proofs.Reading.IndexFields

/-!
# Constraints of interfaces

In the legacy dialect an interface has no relation and no index. They may be declared in a heading,
by a directive in almost any section and by the items of two sections, and in each of these places
they are refused. `Model.sameConstraints_of_entries` is the invariant of the loop over the entries
of a block: none of them adds a constraint to an interface, and none of them writes one
(`Item.writesConstraint`). So interfaces are without constraints because there are none in their
blocks, not because some are passed over (`Document.read_legacy_barsConstraints`).
-/

namespace SchemaMarkup

/-! ## What is written -/

/-- Whether the item writes a relation or an index if it is one of a model or interface. -/
def Item.writesConstraint (item : Item) : Bool :=
  let bodySection := BodySection.under item.heading
  if item.isDirective && bodySection != .metadata then
    bodySection != .unknown && item.lastConstraint?.isSome
  else
    bodySection == .relations || bodySection == .indexes

/-- Whether the heading of the block writes a relation or an index. -/
def Block.headingWritesConstraint (dialect : Dialect) (block : Block) : Bool :=
  match Header.read dialect block.heading.content with
  | .ok header => header.attributes.any Attribute.declaresConstraint
  | .error _ => false

/-- Whether a relation or an index is written anywhere in the block. -/
def Block.writesConstraint (dialect : Dialect) (block : Block) : Bool :=
  block.headingWritesConstraint dialect || block.items.any Item.writesConstraint

theorem Entry.items_cons_item (heading : Option Line) (depth : Nat) (line : Line)
    (nested : List Line) (later : List Entry) :
    Entry.items heading (.item depth line nested :: later) =
      Entry.items heading [.item depth line nested] ++ Entry.items heading later := by
  simp only [Entry.items]
  split <;> rfl

/-! ## Directives -/

namespace Model

/-- Two states of one model: its relations and indexes are the same, and so is its kind. -/
structure SameConstraints (model next : Model) : Prop where
  kind : next.kind = model.kind
  relations : next.relations = model.relations
  indexes : next.indexes = model.indexes

theorem SameConstraints.refl (model : Model) : model.SameConstraints model :=
  ⟨rfl, rfl, rfl⟩

theorem SameConstraints.trans {first second third : Model} (before : first.SameConstraints second)
    (after : second.SameConstraints third) : first.SameConstraints third where
  kind := after.kind.trans before.kind
  relations := after.relations.trans before.relations
  indexes := after.indexes.trans before.indexes

variable {model next : Model}

theorem isInterface_iff : model.isInterface = true ↔ model.kind = .interface := beq_iff_eq

/-- The legacy dialect refuses the constraints of interfaces. -/
theorem checkConstraint_legacy (isInterface : model.kind = .interface) :
    model.checkConstraint .legacy ≠ .ok () := by
  rw [checkConstraint, isInterface_iff.mpr isInterface]
  exact nofun

/-- Directives of an interface are read if there is no constraint among them. -/
theorem isConstraint_of_readDirectives {location : Location} {calls : List Attribute}
    {directives : List Directive} (isInterface : model.kind = .interface)
    (areRead : model.readDirectives .legacy location calls = .ok directives) :
    ∀ directive ∈ directives, directive.isConstraint = false := by
  intro directive listed
  obtain ⟨call, _, isRead⟩ := exists_of_mem_mapM areRead listed
  simp only [bind_eq_ok_iff] at isRead
  obtain ⟨declared, _, isChecked⟩ := isRead
  split at isChecked
  · simp only [bind_eq_ok_iff] at isChecked
    obtain ⟨_, isAllowed, _⟩ := isChecked
    exact absurd isAllowed (checkConstraint_legacy isInterface)
  · next noConstraint =>
      rw [pure_eq_ok_iff] at isChecked
      simpa [isChecked] using noConstraint

/-- The calls behind directives without a constraint declare none. -/
theorem declaresConstraint_of_readDirectives {location : Location} {calls : List Attribute}
    {directives : List Directive} (isInterface : model.kind = .interface)
    (areRead : model.readDirectives .legacy location calls = .ok directives) :
    ∀ call ∈ calls, call.declaresConstraint = false := by
  have noConstraint := isConstraint_of_readDirectives isInterface areRead
  have declared := (Directive.isDeclaredBy_readDirectives areRead).flip
  intro call listed
  obtain ⟨directive, isDirective, isDeclared⟩ := exists_of_forall₂_of_mem declared listed
  rw [← isDeclared.isConstraint]
  exact noConstraint directive isDirective

/-- Directives that are no constraints add none. -/
theorem sameConstraints_addDirectives {directives : List Directive}
    (noConstraint : ∀ directive ∈ directives, directive.isConstraint = false) :
    model.SameConstraints (directives.foldl addDirective model) := by
  induction directives generalizing model with
  | nil => exact .refl model
  | cons directive later inductionHypothesis =>
      obtain ⟨here, noneLater⟩ := List.forall_mem_cons.mp noConstraint
      have first : model.SameConstraints (model.addDirective directive) := by
        cases directive with
        | other call => exact ⟨rfl, rfl, rfl⟩
        | index | relation => contradiction
      exact first.trans (inductionHypothesis noneLater)

/-! ## Items -/

/-- A line of directives of an interface declares no constraint. -/
theorem sameConstraints_addDirectiveLine {item : Item} (isInterface : model.kind = .interface)
    (run : model.addDirectiveLine .legacy item.line item.nested = .ok next) :
    item.lastConstraint? = none ∧ model.SameConstraints next := by
  simp only [addDirectiveLine, bind_eq_ok_iff, atLocation_eq_ok_iff] at run
  obtain ⟨directives, ⟨calls, areCalls, areRead⟩, run⟩ := run
  have noConstraint := isConstraint_of_readDirectives isInterface areRead
  have noCall := declaresConstraint_of_readDirectives isInterface areRead
  constructor
  · have areCalls := mapError_eq_ok_iff.mp areCalls
    simpa [Item.lastConstraint?, areCalls, List.filter_eq_nil_iff] using noCall
  · rw [refineLastConstraint_eq_none_iff.mpr noConstraint] at run
    split at run
    · contradiction
    · rw [pure_eq_ok_iff] at run
      exact run ▸ sameConstraints_addDirectives noConstraint
    · simp only [throw_eq_ok_iff] at run

theorem not_addRelation {line : Line} {nested : List Line} (isInterface : model.kind = .interface) :
    model.addRelation .legacy line nested ≠ .ok next := by
  intro run
  simp only [addRelation, bind_eq_ok_iff] at run
  obtain ⟨declared, _, run⟩ := run
  split at run
  · simp only [bind_eq_ok_iff, atLocation_eq_ok_iff] at run
    obtain ⟨_, _, _, isAllowed, _⟩ := run
    exact checkConstraint_legacy isInterface isAllowed
  · simp only [throw_eq_ok_iff] at run

theorem not_addIndex {line : Line} {nested : List Line} (isInterface : model.kind = .interface) :
    model.addIndex .legacy line nested ≠ .ok next := by
  intro run
  simp only [addIndex, bind_eq_ok_iff, atLocation_eq_ok_iff] at run
  obtain ⟨_, _, _, _, _, isAllowed, _⟩ := run
  exact checkConstraint_legacy isInterface isAllowed

theorem sameConstraints_addMetadata {line : Line} {nested : List Line}
    (run : model.addMetadata line nested = .ok next) : model.SameConstraints next := by
  unfold addMetadata at run
  split at run
  · contradiction
  · contradiction
  · cases run
    exact ⟨rfl, rfl, rfl⟩

/-- Whichever section an item of an interface stands in, it writes no constraint and adds none. -/
theorem sameConstraints_addItem {item : Item} (isInterface : model.kind = .interface)
    (isKnown : BodySection.under item.heading ≠ .unknown)
    (run : model.addItem .legacy (.under item.heading) item.line item.nested = .ok next) :
    item.writesConstraint = false ∧ model.SameConstraints next := by
  simp only [addItem] at run
  split at run
  · next isDirective =>
      obtain ⟨noConstraint, same⟩ := sameConstraints_addDirectiveLine isInterface run
      have writes : item.writesConstraint = (BodySection.under item.heading != .unknown &&
          item.lastConstraint?.isSome) := if_pos isDirective
      exact ⟨by simp [writes, noConstraint], same⟩
  · next noDirective =>
      have writes : item.writesConstraint = (BodySection.under item.heading == .relations ||
          BodySection.under item.heading == .indexes) := if_neg noDirective
      rw [writes]
      generalize BodySection.under item.heading = bodySection at run isKnown
      cases bodySection with
      | fields =>
          obtain ⟨_, _, _, _, _, _, _, rfl⟩ := addField_eq_ok_iff.mp run
          exact ⟨rfl, rfl, rfl, rfl⟩
      | relations => exact absurd run (not_addRelation isInterface)
      | indexes => exact absurd run (not_addIndex isInterface)
      | metadata => exact ⟨rfl, sameConstraints_addMetadata run⟩
      | unknown => contradiction

/-! ## Blocks -/

/-- One more entry of an interface adds no constraint, and if it is an item it writes none. -/
theorem Progress.sameConstraints_add {progress next : Progress} {entry : Entry}
    {heading : Option Line} (isInterface : progress.model.kind = .interface)
    (isSection : progress.bodySection = .under heading)
    (run : progress.add .legacy entry = .ok next) :
    (∀ item ∈ Entry.items heading [entry], item.writesConstraint = false) ∧
      progress.model.SameConstraints next.model := by
  cases entry with
  | sectionHeading line =>
      simp only [add] at run
      split at run <;> cases run <;> exact ⟨by simp [Entry.items], .refl _⟩
  | quote line =>
      cases run
      exact ⟨by simp [Entry.items], ⟨rfl, rfl, rfl⟩⟩
  | item depth line nested =>
      simp only [add, isSection] at run
      split at run
      · next isUnknown =>
          cases run
          have writesNone : ({ heading, line, nested } : Item).writesConstraint = false := by
            simp [Item.writesConstraint, eq_of_beq isUnknown]
          refine ⟨?_, .refl _⟩
          rw [Entry.items]
          split <;> simp [Entry.items, writesNone]
      · next isKnown =>
          split at run
          · contradiction
          · next shallow =>
              simp only [bind_eq_ok_iff, pure_eq_ok_iff] at run
              obtain ⟨model, added, rfl⟩ := run
              obtain ⟨writesNone, same⟩ := @sameConstraints_addItem progress.model model
                { heading, line, nested } isInterface (by simpa using isKnown) added
              refine ⟨?_, same⟩
              rw [Entry.items, if_pos (Nat.le_of_not_lt shallow)]
              simp [Entry.items, writesNone]

/-- Over all entries of an interface no constraint is written and none is added. -/
theorem sameConstraints_of_entries {entries : List Entry} {start last : Progress}
    {heading : Option Line} (isInterface : start.model.kind = .interface)
    (isSection : start.bodySection = .under heading)
    (run : entries.foldlM (Progress.add .legacy) start = .ok last) :
    (∀ item ∈ Entry.items heading entries, item.writesConstraint = false) ∧
      start.model.SameConstraints last.model := by
  induction entries generalizing start heading with
  | nil =>
      rw [List.foldlM_nil, pure_eq_ok_iff] at run
      exact ⟨by simp [Entry.items], run ▸ .refl _⟩
  | cons entry later inductionHypothesis =>
      rw [List.foldlM_cons, bind_eq_ok_iff] at run
      obtain ⟨next, added, run⟩ := run
      obtain ⟨writesNone, same⟩ := Progress.sameConstraints_add isInterface isSection added
      have nextSection := Progress.bodySection_add added
      rw [isSection] at nextSection
      have nextInterface := same.kind.trans isInterface
      cases entry with
      | sectionHeading line =>
          obtain ⟨noneLater, sameLater⟩ :=
            @inductionHypothesis next (some line) nextInterface nextSection run
          exact ⟨noneLater, same.trans sameLater⟩
      | quote line =>
          obtain ⟨noneLater, sameLater⟩ := inductionHypothesis nextInterface nextSection run
          exact ⟨noneLater, same.trans sameLater⟩
      | item depth line nested =>
          obtain ⟨noneLater, sameLater⟩ := inductionHypothesis nextInterface nextSection run
          rw [Entry.items_cons_item, List.forall_mem_append]
          exact ⟨⟨writesNone, noneLater⟩, same.trans sameLater⟩

/-- The header of an interface declares no constraint. -/
theorem unconstrained_ofHeader {header : Header} {location : Location}
    (run : ofHeader .legacy .interface header location = .ok model) :
    (∀ call ∈ header.attributes, call.declaresConstraint = false) ∧
      model.kind = .interface ∧ model.relations = [] ∧ model.indexes = [] := by
  simp only [ofHeader, bind_eq_ok_iff, pure_eq_ok_iff, atLocation_eq_ok_iff] at run
  obtain ⟨directives, areRead, rfl⟩ := run
  have noConstraint := isConstraint_of_readDirectives rfl areRead
  have same := fun start => @sameConstraints_addDirectives start directives noConstraint
  exact ⟨declaresConstraint_of_readDirectives rfl areRead, (same _).kind, (same _).relations,
    (same _).indexes⟩

end Model

/-- An entity of a block. If it is an interface, it has no relation and no index, and the block
writes none. -/
def Block.BarsConstraints (block : Block) (entity : Entity) : Prop :=
  ∀ model, entity = .model model → model.kind = .interface →
    model.relations = [] ∧ model.indexes = [] ∧ block.writesConstraint .legacy = false

theorem Block.barsConstraints_of_read {block : Block} {entity : Entity}
    {warnings : List Diagnostic} (noRoot : ∀ line ∈ block.body, line.depth? ≠ some 0)
    (isRead : block.spoken.read .legacy = .ok (entity, warnings)) :
    block.BarsConstraints entity := by
  rintro model rfl isInterface
  obtain ⟨header, isHeader, reads⟩ := Block.reads_of_read isRead
  cases reads with
  | @model kind _ _ _ isModel =>
      obtain rfl : kind = .interface := (Model.sameHead_read isModel).kind.symm.trans isInterface
      simp only [Model.read, bind_eq_ok_iff, pure_eq_ok_iff, Prod.mk.injEq] at isModel
      obtain ⟨start, started, progress, added, rfl, rfl⟩ := isModel
      obtain ⟨noCall, isKind, noRelation, noIndex⟩ := Model.unconstrained_ofHeader started
      have isSection : ({ model := start } : Model.Progress).bodySection = .under none := rfl
      obtain ⟨noItem, same⟩ := Model.sameConstraints_of_entries isKind isSection added
      refine ⟨same.relations.trans noRelation, same.indexes.trans noIndex, ?_⟩
      have sameHeading : block.spoken.heading = block.heading := rfl
      rw [sameHeading] at isHeader
      simp only [writesConstraint, headingWritesConstraint, isHeader,
        block.items_eq_entryItems noRoot, Bool.or_eq_false_iff, List.any_eq_false,
        Bool.not_eq_true]
      exact ⟨noCall, noItem⟩

/-- To look for foreign keys changes fields alone. -/
theorem Block.BarsConstraints.inferEntity {block : Block} {entity : Entity}
    (bars : block.BarsConstraints entity) (document : Document) :
    block.BarsConstraints (document.inferEntity entity) := by
  intro model isModel isInterface
  cases entity with
  | enumeration => contradiction
  | model before =>
      cases isModel
      exact bars before rfl isInterface

/-! ## Documents -/

namespace Document

variable {options : ReadingOptions} {source : Text} {document : Document}
  {warnings : List Diagnostic}

theorem forall₂_barsConstraints_of_read (isLegacy : document.dialect = .legacy)
    (isRead : read options source = .ok (document, warnings)) :
    ∃ preamble blocks, IsDivided .legacy (readLines source) preamble blocks ∧
      List.Forall₂ Block.BarsConstraints blocks document.entities := by
  have ofBlock : ∀ dialect (block : Block) entity found,
      (∀ line ∈ block.body, line.depth? ≠ some 0) →
        block.spoken.read dialect = .ok (entity, found) → dialect = .legacy →
          block.BarsConstraints entity := by
    rintro dialect block entity found noRoot isEntity rfl
    exact Block.barsConstraints_of_read noRoot isEntity
  obtain ⟨preamble, blocks, divided, bars⟩ := @forall₂_blocks_of_read options source document
    warnings (fun dialect block entity => dialect = .legacy → block.BarsConstraints entity) ofBlock
    (fun declared _ _ _ bars isLegacy => (bars isLegacy).inferEntity declared) isRead
  exact ⟨preamble, blocks, isLegacy ▸ divided, bars.imp fun _ _ isBarred => isBarred isLegacy⟩

/-- In the legacy dialect the interfaces of a document have no relations and no indexes, and their
blocks write none, in the heading or in any section. -/
theorem read_legacy_barsConstraints
    (isLegacy : options.dialect.dialectFor (readLines source) = .legacy)
    (isRead : read options source = .ok (document, warnings)) :
    (∀ model ∈ document.models, model.isInterface = true →
        model.relations = [] ∧ model.indexes = []) ∧
      ∃ preamble blocks, IsDivided .legacy (readLines source) preamble blocks ∧
        List.Forall₂ Block.BarsConstraints blocks document.entities := by
  have isDialect := (dialect_of_read isRead).trans isLegacy
  obtain ⟨preamble, blocks, divided, bars⟩ := forall₂_barsConstraints_of_read isDialect isRead
  refine ⟨?_, preamble, blocks, divided, bars⟩
  intro model listed isInterface
  obtain ⟨block, _, isBarred⟩ := exists_of_forall₂_of_mem bars (mem_models_iff.mp listed)
  obtain ⟨noRelation, noIndex, _⟩ := isBarred model rfl (Model.isInterface_iff.mp isInterface)
  exact ⟨noRelation, noIndex⟩

end Document

/-- An interface and a model in the legacy dialect, as the levels of their headings tell. Directives
of the interface that are no constraints are kept, and an index in an unknown section is not
read. The model has an index and a relation. -/
def auditTrail : Text :=
  "# IAudited @tracked
- changedAt: datetime
- @sealed
### Notes
- @index(changedAt)
# Order: IAudited @index(changedAt)
### Relations
- >Customer".toList

/-- The interface is without constraints, and the model has its own. -/
theorem auditTrail_barsConstraints :
    DialectChoice.auto.dialectFor (readLines auditTrail) = .legacy ∧
      ∃ document warnings, Document.read {} auditTrail = .ok (document, warnings) ∧
        (document.models.map fun model =>
          (model.isInterface, model.attributes.length, model.relations.length,
            model.indexes.length)) = [(true, 2, 0, 0), (false, 1, 1, 1)] ∧
        (∀ model ∈ document.models, model.isInterface = true →
          model.relations = [] ∧ model.indexes = []) ∧
        ∃ preamble blocks, IsDivided .legacy (readLines auditTrail) preamble blocks ∧
          List.Forall₂ Block.BarsConstraints blocks document.entities := by
  have shown : (Document.read {} auditTrail).map (fun outcome =>
      (outcome.1.dialect, outcome.1.models.map fun model =>
        (model.isInterface, model.attributes.length, model.relations.length,
          model.indexes.length))) = .ok (.legacy, [(true, 2, 0, 0), (false, 1, 1, 1)]) := by
    decide +kernel
  obtain ⟨⟨document, warnings⟩, isRead, same⟩ := map_eq_ok_iff.mp shown
  obtain ⟨isDialect, counts⟩ := Prod.mk.inj same
  have isLegacy := (Document.dialect_of_read isRead).symm.trans isDialect
  exact ⟨isLegacy, document, warnings, isRead, counts,
    Document.read_legacy_barsConstraints isLegacy isRead⟩

end SchemaMarkup
