import SchemaMarkup.Proofs.Entities
import SchemaMarkup.Proofs.Reading.FieldLines
import SchemaMarkup.Proofs.Reading.SourcePasses

/-!
# Declared fields

`Model.OwnsFields` is what reading makes sure of: every field of a model says that it is
declared there, and no two of them have the same name. It is an invariant of the loop over
the entries of a block, and only field items touch it. `Document.ownsFields_of_read` says
that all models of a document which was read have it.
-/

namespace SchemaMarkup

namespace Field

/-- Two states of one field: it has kept its name and the entity that declares it. -/
structure SameOrigin (field other : Field) : Prop where
  name : other.name = field.name
  declaredIn : other.declaredIn = field.declaredIn

theorem SameOrigin.refl (field : Field) : field.SameOrigin field :=
  ⟨rfl, rfl⟩

theorem SameOrigin.trans {first second third : Field} (before : first.SameOrigin second)
    (after : second.SameOrigin third) : first.SameOrigin third :=
  ⟨after.name.trans before.name, after.declaredIn.trans before.declaredIn⟩

/-- Properties tell nothing about the origin of a field. -/
theorem Refines.sameOrigin {field refined : Field} (refines : field.Refines refined) :
    field.SameOrigin refined := by
  rw [refines.kept]
  exact ⟨rfl, rfl⟩

end Field

/-- The fields of a model are declared by it, each under a name of its own. -/
structure Model.OwnsFields (model : Model) : Prop where
  declaredIn : ∀ field ∈ model.fields, field.declaredIn = model.name
  distinct : (model.fields.map Field.name).Nodup

namespace Model

variable {model next : Model}

/-- A model without fields owns them. -/
theorem ownsFields_of_nil (none : model.fields = []) : model.OwnsFields where
  declaredIn := by simp [none]
  distinct := by simp [none]

/-- Two states of one model: it has kept what its header says of it, and what is left to
resolution. -/
structure SameHead (model next : Model) : Prop where
  name : next.name = model.name
  kind : next.kind = model.kind
  inherits : next.inherits = model.inherits
  resolvedParents : next.resolvedParents = model.resolvedParents
  fullFields : next.fullFields = model.fullFields
  location : next.location = model.location

theorem SameHead.refl (model : Model) : model.SameHead model :=
  ⟨rfl, rfl, rfl, rfl, rfl, rfl⟩

theorem SameHead.trans {first second third : Model} (before : first.SameHead second)
    (after : second.SameHead third) : first.SameHead third where
  name := after.name.trans before.name
  kind := after.kind.trans before.kind
  inherits := after.inherits.trans before.inherits
  resolvedParents := after.resolvedParents.trans before.resolvedParents
  fullFields := after.fullFields.trans before.fullFields
  location := after.location.trans before.location

/-- Two states of one model: it has kept its fields as well. -/
structure SameFields (model next : Model) : Prop extends model.SameHead next where
  fields : next.fields = model.fields

theorem SameFields.refl (model : Model) : model.SameFields model :=
  ⟨.refl model, rfl⟩

theorem SameFields.trans {first second third : Model} (before : first.SameFields second)
    (after : second.SameFields third) : first.SameFields third :=
  ⟨before.toSameHead.trans after.toSameHead, after.fields.trans before.fields⟩

/-- A change of anything but the name and the fields leaves the fields to the model. -/
theorem OwnsFields.of_fields_eq (owns : model.OwnsFields) (name : next.name = model.name)
    (fields : next.fields = model.fields) : next.OwnsFields where
  declaredIn := by rw [fields, name]; exact owns.declaredIn
  distinct := by rw [fields]; exact owns.distinct

/-- A change of fields that keeps their origin leaves them to the model. -/
theorem OwnsFields.mapFields (owns : model.OwnsFields) {change : Field → Field}
    (name : next.name = model.name) (fields : next.fields = model.fields.map change)
    (sameOrigin : ∀ field : Field, field.SameOrigin (change field)) : next.OwnsFields where
  declaredIn := by
    rw [fields, name, List.forall_mem_map]
    exact fun field listed => (sameOrigin field).declaredIn.trans (owns.declaredIn field listed)
  distinct := by
    rw [fields, List.map_map]
    have names : Field.name ∘ change = Field.name := funext fun field => (sameOrigin field).name
    rw [names]
    exact owns.distinct

/-- A declared field is found by its name. -/
theorem OwnsFields.field?_name (owns : model.OwnsFields) {field : Field}
    (listed : field ∈ model.fields) : model.field? field.name = some field :=
  (find?_named_eq_some_iff owns.distinct).mpr ⟨listed, rfl⟩

/-! ## Items of a block -/

/-- A field item adds one field, with a name that is new to the model. -/
theorem OwnsFields.addField (owns : model.OwnsFields) {line : Line} {nested : List Line}
    (run : model.addField line nested = .ok next) : next.OwnsFields := by
  obtain ⟨declared, form, field, isRead, isRefined, _, isNew, rfl⟩ := addField_eq_ok_iff.mp run
  exact {
    declaredIn := by
      simp only [List.forall_mem_append, List.forall_mem_singleton]
      exact ⟨owns.declaredIn, (Field.refines_item isRead isRefined).1.sameOrigin.declaredIn⟩
    distinct := by
      rw [List.map_append, List.map_singleton, ← List.concat_eq_append, List.nodup_concat]
      refine ⟨fun taken => ?_, owns.distinct⟩
      obtain ⟨other, isOther, same⟩ := List.mem_map.mp taken
      rw [field?, List.find?_eq_none] at isNew
      exact isNew other isOther (by simpa using same) }

/-- Directives add no field. -/
theorem sameFields_addDirectives (model : Model) (directives : List Directive) :
    model.SameFields (directives.foldl addDirective model) := by
  induction directives generalizing model with
  | nil => exact .refl model
  | cons directive later inductionHypothesis =>
      have first : model.SameFields (model.addDirective directive) := by
        cases directive <;> exact ⟨⟨rfl, rfl, rfl, rfl, rfl, rfl⟩, rfl⟩
      exact first.trans (inductionHypothesis (model.addDirective directive))

theorem sameFields_addDirectiveLine {dialect : Dialect} {line : Line} {nested : List Line}
    (run : model.addDirectiveLine dialect line nested = .ok next) : model.SameFields next := by
  simp only [addDirectiveLine, bind_eq_ok_iff] at run
  obtain ⟨directives, _, run⟩ := run
  split at run
  · simp only [bind_eq_ok_iff, pure_eq_ok_iff] at run
    obtain ⟨refined, _, rfl⟩ := run
    exact sameFields_addDirectives model refined
  · rw [pure_eq_ok_iff] at run
    exact run ▸ sameFields_addDirectives model directives
  · simp only [throw_eq_ok_iff] at run

theorem sameFields_addRelation {dialect : Dialect} {line : Line} {nested : List Line}
    (run : model.addRelation dialect line nested = .ok next) : model.SameFields next := by
  simp only [addRelation, bind_eq_ok_iff] at run
  obtain ⟨declared, _, run⟩ := run
  split at run
  · simp only [bind_eq_ok_iff, pure_eq_ok_iff] at run
    obtain ⟨_, _, _, _, rfl⟩ := run
    exact ⟨⟨rfl, rfl, rfl, rfl, rfl, rfl⟩, rfl⟩
  · simp only [throw_eq_ok_iff] at run

theorem sameFields_addIndex {dialect : Dialect} {line : Line} {nested : List Line}
    (run : model.addIndex dialect line nested = .ok next) : model.SameFields next := by
  simp only [addIndex, bind_eq_ok_iff, pure_eq_ok_iff] at run
  obtain ⟨_, _, _, _, _, _, rfl⟩ := run
  exact ⟨⟨rfl, rfl, rfl, rfl, rfl, rfl⟩, rfl⟩

theorem sameFields_addMetadata {line : Line} {nested : List Line}
    (run : model.addMetadata line nested = .ok next) : model.SameFields next := by
  unfold addMetadata at run
  split at run
  · contradiction
  · contradiction
  · cases run
    exact ⟨⟨rfl, rfl, rfl, rfl, rfl, rfl⟩, rfl⟩

/-- An item of a section for fields declares a field, unless it is a directive. Any other item
leaves the fields as they are. -/
theorem addItem_cases {dialect : Dialect} {bodySection : BodySection} {line : Line}
    {nested : List Line} (run : model.addItem dialect bodySection line nested = .ok next) :
    if bodySection == .fields && line.content.head? != some '@' then
      model.addField line nested = .ok next
    else
      model.SameFields next := by
  simp only [Model.addItem] at run
  split at run
  · next directive =>
      rw [if_neg (by simp_all)]
      exact sameFields_addDirectiveLine run
  · next noDirective =>
      cases bodySection with
      | fields =>
          rw [if_pos (by simpa using noDirective)]
          exact run
      | relations => exact sameFields_addRelation run
      | indexes => exact sameFields_addIndex run
      | metadata => exact sameFields_addMetadata run
      | unknown => exact Except.ok.inj run ▸ .refl model

end Model

/-! ## Blocks -/

/-- Whether an entry declares a field if it stands in some section. -/
def Entry.declaresField (bodySection : BodySection) : Entry → Bool
  | .item _ line _ => bodySection == .fields && line.content.head? != some '@'
  | _ => false

/-- The section behind an entry that stands in some section. -/
def BodySection.after (bodySection : BodySection) : Entry → BodySection
  | .sectionHeading line => .ofHeading line.content
  | _ => bodySection

namespace Model

variable {model next : Model}

/-- A heading leads to another section, and no other entry does. -/
theorem Progress.bodySection_add {dialect : Dialect} {progress next : Progress} {entry : Entry}
    (run : progress.add dialect entry = .ok next) :
    next.bodySection = progress.bodySection.after entry := by
  cases entry with
  | sectionHeading line =>
      simp only [add] at run
      split at run
      · next isUnknown => exact Except.ok.inj run ▸ isUnknown.symm
      · exact Except.ok.inj run ▸ rfl
  | quote line => exact Except.ok.inj run ▸ rfl
  | item depth line nested =>
      simp only [add] at run
      split at run
      · exact Except.ok.inj run ▸ rfl
      · split at run
        · contradiction
        · simp only [bind_eq_ok_iff, pure_eq_ok_iff] at run
          obtain ⟨_, _, rfl⟩ := run
          rfl

/-- An entry declares a field or leaves the fields as they are. -/
theorem Progress.add_cases {dialect : Dialect} {progress next : Progress} {entry : Entry}
    (run : progress.add dialect entry = .ok next) :
    (∃ depth line nested, entry = .item depth line nested ∧ depth ≤ 1 ∧
      entry.declaresField progress.bodySection = true ∧
      progress.model.addField line nested = .ok next.model) ∨
    entry.declaresField progress.bodySection = false ∧
      progress.model.SameFields next.model := by
  cases entry with
  | sectionHeading line =>
      simp only [add] at run
      split at run <;> exact .inr ⟨rfl, Except.ok.inj run ▸ .refl _⟩
  | quote line => exact .inr ⟨rfl, Except.ok.inj run ▸ ⟨⟨rfl, rfl, rfl, rfl, rfl, rfl⟩, rfl⟩⟩
  | item depth line nested =>
      simp only [add] at run
      split at run
      · next isUnknown =>
          refine .inr ⟨?_, Except.ok.inj run ▸ .refl _⟩
          rw [Entry.declaresField, eq_of_beq isUnknown]
          rfl
      · split at run
        · contradiction
        · next shallow =>
            simp only [bind_eq_ok_iff, pure_eq_ok_iff] at run
            obtain ⟨model, added, rfl⟩ := run
            have outcome := addItem_cases added
            split at outcome
            · next declares =>
                exact .inl ⟨depth, line, nested, rfl, Nat.le_of_not_lt shallow, declares, outcome⟩
            · next declaresNone =>
                exact .inr ⟨by simpa [Entry.declaresField] using declaresNone, outcome⟩

/-- One more entry leaves the fields with the model. -/
theorem Progress.ownsFields_add {dialect : Dialect} {progress next : Progress} {entry : Entry}
    (run : progress.add dialect entry = .ok next) (owns : progress.model.OwnsFields) :
    next.model.OwnsFields := by
  rcases Progress.add_cases run with ⟨_, _, _, _, _, _, declares⟩ | ⟨_, same⟩
  · exact owns.addField declares
  · exact owns.of_fields_eq same.name same.fields

/-- A header declares no field. -/
theorem fields_ofHeader {dialect : Dialect} {kind : ModelKind} {header : Header}
    {location : Location} (run : ofHeader dialect kind header location = .ok model) :
    model.fields = [] := by
  simp only [ofHeader, bind_eq_ok_iff, pure_eq_ok_iff] at run
  obtain ⟨directives, _, rfl⟩ := run
  exact (sameFields_addDirectives _ directives).fields

/-- A model that was read owns its fields. -/
theorem ownsFields_of_read {dialect : Dialect} {kind : ModelKind} {header : Header}
    {location : Location} {entries : List Entry} {warnings : List Diagnostic}
    (run : Model.read dialect kind header location entries = .ok (model, warnings)) :
    model.OwnsFields := by
  simp only [Model.read, bind_eq_ok_iff, pure_eq_ok_iff, Prod.mk.injEq] at run
  obtain ⟨start, started, progress, added, rfl, rfl⟩ := run
  exact foldlM_keeps (fun progress => progress.model.OwnsFields)
    (fun _ _ _ => Progress.ownsFields_add) added (ownsFields_of_nil (fields_ofHeader started))

/-- A model that was read has no flag at its fields. -/
theorem flags_of_read {dialect : Dialect} {kind : ModelKind} {header : Header}
    {location : Location} {entries : List Entry} {warnings : List Diagnostic}
    (run : Model.read dialect kind header location entries = .ok (model, warnings)) :
    ∀ field ∈ model.fields, field.flags = {} := by
  simp only [Model.read, bind_eq_ok_iff, pure_eq_ok_iff, Prod.mk.injEq] at run
  obtain ⟨start, started, progress, added, rfl, rfl⟩ := run
  refine foldlM_keeps
    (fun progress => ∀ field ∈ progress.model.fields, field.flags = {}) ?_ added ?_
  · intro before entry after step unflagged
    rcases Progress.add_cases step with ⟨_, _, _, _, _, _, declares⟩ | ⟨_, same⟩
    · obtain ⟨_, _, field, isRead, isRefined, _, _, isNext⟩ := addField_eq_ok_iff.mp declares
      have added : field.flags = {} := by
        rw [(Field.refines_item isRead isRefined).1.kept]
        rfl
      rw [isNext, List.forall_mem_append, List.forall_mem_singleton]
      exact ⟨unflagged, added⟩
    · rwa [same.fields]
  · rw [fields_ofHeader started]
    exact fun field listed => absurd listed List.not_mem_nil

end Model

/-! ## Declarations -/

/-- What a declaration is read into: a model or an interface, or an enumeration without warnings. -/
inductive Declaration.Reads (dialect : Dialect) (declaration : Declaration) :
    Entity → List Diagnostic → Prop where
  | model {kind : ModelKind} {model : Model} {warnings : List Diagnostic}
      (isKind : declaration.header.kind = kind.entityKind)
      (isRead : Model.read dialect kind declaration.header declaration.location
        declaration.block.entries = .ok (model, warnings)) :
      Reads dialect declaration (.model model) warnings
  | enumeration {enumeration : Enumeration} (isKind : declaration.header.kind = .enumeration)
      (isRead : Enumeration.read declaration.header declaration.location
        declaration.block.entries = .ok enumeration) :
      Reads dialect declaration (.enumeration enumeration) []

theorem Declaration.reads_of_readEntity {dialect : Dialect} {declaration : Declaration}
    {entity : Entity} {warnings : List Diagnostic}
    (run : declaration.readEntity dialect = .ok (entity, warnings)) :
    declaration.Reads dialect entity warnings := by
  rw [readEntity] at run
  cases isKind : declaration.header.kind with
  | model =>
      simp only [isKind, bind_eq_ok_iff, pure_eq_ok_iff, Prod.mk.injEq] at run
      obtain ⟨_, isRead, rfl, rfl⟩ := run
      refine .model ?_ isRead
      exact isKind
  | interface =>
      simp only [isKind, bind_eq_ok_iff, pure_eq_ok_iff, Prod.mk.injEq] at run
      obtain ⟨_, isRead, rfl, rfl⟩ := run
      refine .model ?_ isRead
      exact isKind
  | enumeration =>
      simp only [isKind, bind_eq_ok_iff, pure_eq_ok_iff, Prod.mk.injEq] at run
      obtain ⟨_, isRead, rfl, rfl⟩ := run
      exact .enumeration isKind isRead

namespace Document

/-! ## Documents -/

/-- Every model and interface of the document owns its fields. -/
def OwnsFields (document : Document) : Prop :=
  ∀ model ∈ document.models, model.OwnsFields

variable {document : Document}

theorem OwnsFields.insert (owns : document.OwnsFields) {entity : Entity}
    (entityOwns : ∀ model, entity = .model model → model.OwnsFields) :
    (document.insert entity).OwnsFields := by
  intro model listed
  rcases mem_entities_insert (mem_models_iff.mp listed) with isNew | declared
  · exact entityOwns model isNew.symm
  · exact owns model (mem_models_iff.mpr declared)

/-- A change to models that keeps the origin of their fields leaves the fields where they
belong. -/
theorem OwnsFields.mapModels (owns : document.OwnsFields) {change : Model → Model}
    (keepsName : ∀ model, (change model).name = model.name) {fieldChange : Field → Field}
    (fields : ∀ model, (change model).fields = model.fields.map fieldChange)
    (sameOrigin : ∀ field : Field, field.SameOrigin (fieldChange field)) :
    (document.mapModels change keepsName).OwnsFields := by
  intro model listed
  rw [models_mapModels] at listed
  obtain ⟨before, declared, rfl⟩ := List.mem_map.mp listed
  exact (owns before declared).mapFields (keepsName before) (fields before) sameOrigin

/-- An entity that a block declares owns its fields. -/
theorem ownsFields_of_readEntity {dialect : Dialect} {declaration : Declaration}
    {entity : Entity} {warnings : List Diagnostic}
    (run : declaration.readEntity dialect = .ok (entity, warnings)) :
    ∀ model, entity = .model model → model.OwnsFields := by
  rintro model rfl
  cases Declaration.reads_of_readEntity run with
  | model _ isRead => exact Model.ownsFields_of_read isRead

/-- Putting in entities that own their fields leaves the fields where they belong. -/
theorem OwnsFields.insertAll (owns : document.OwnsFields) {dialect : Dialect}
    {declarations : List Declaration} {entities : List (Entity × List Diagnostic)}
    (areRead : List.Forall₂ (fun declaration entity =>
      Declaration.readEntity dialect declaration = .ok entity) declarations entities) :
    (entities.foldl (fun document entity => document.insert entity.1) document).OwnsFields := by
  induction areRead generalizing document with
  | nil => exact owns
  | cons isRead _ inductionHypothesis =>
      exact inductionHypothesis (owns.insert (ownsFields_of_readEntity isRead))

theorem ownsFields_of_ofLines {dialect : Dialect} {lines : List Line}
    {warnings : List Diagnostic} (run : ofLines dialect lines = .ok (document, warnings)) :
    document.OwnsFields := by
  simp only [ofLines, bind_eq_ok_iff, pure_eq_ok_iff, mapM_eq_ok_iff, Prod.mk.injEq] at run
  obtain ⟨declarations, _, entities, areRead, rfl, rfl⟩ := run
  exact OwnsFields.insertAll (fun model listed => absurd listed List.not_mem_nil) areRead

/-- To take a field for a foreign key changes nothing about its origin. -/
theorem sameOrigin_inferForeignKey (document : Document) (field : Field) :
    field.SameOrigin (document.inferForeignKey field) := by
  rw [inferForeignKey]
  split <;> exact ⟨rfl, rfl⟩

/-- Every model of a document that was read owns its fields. -/
theorem ownsFields_of_read {options : ReadingOptions} {source : Text}
    {warnings : List Diagnostic} (run : read options source = .ok (document, warnings)) :
    document.OwnsFields := by
  simp only [read_eq, ofSpokenLines, bind_eq_ok_iff] at run
  obtain ⟨⟨declared, found⟩, isRead, run⟩ := run
  have owns := ownsFields_of_ofLines isRead
  split at run
  · simp only [pure_eq_ok_iff, Prod.mk.injEq] at run
    obtain ⟨rfl, rfl⟩ := run
    exact owns.mapModels (fun _ => by rfl) (fun _ => rfl) declared.sameOrigin_inferForeignKey
  · simp only [pure_eq_ok_iff, Prod.mk.injEq] at run
    obtain ⟨rfl, rfl⟩ := run
    exact owns

end Document

end SchemaMarkup
