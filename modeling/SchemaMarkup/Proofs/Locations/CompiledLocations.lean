import SchemaMarkup.Proofs.Inheritance.InheritedFields
import SchemaMarkup.Proofs.Inheritance.ParentNames
import SchemaMarkup.Proofs.Locations.SourceLines

/-!
# Locations of compiled documents

Resolution, classification and validation make up no location. What they put into a document or
into a warning is the location of an entity, a field, a relation or an index that was there
before, so the locations after each step are among those before it. Together with the reading
of sources that gives `compile_locations`: every location that a compilation returns is a line
of its source.
-/

namespace SchemaMarkup

/-! ## Locations in documents -/

namespace Model

variable {model : Model}

theorem mem_locations_iff {location : Location} :
    location ∈ model.locations ↔ location = model.location ∨
      (∃ field ∈ model.fields, field.location = location) ∨
      (∃ field ∈ model.fullFields, field.location = location) ∨
      (∃ relation ∈ model.relations, relation.location = location) ∨
      ∃ index ∈ model.indexes, index.location = location := by
  simp only [locations, List.mem_append, List.mem_cons, List.mem_map, or_assoc]

theorem field_location_mem {field : Field} (listed : field ∈ model.fields) :
    field.location ∈ model.locations :=
  mem_locations_iff.mpr (.inr (.inl ⟨field, listed, rfl⟩))

theorem relation_location_mem {relation : Relation} (listed : relation ∈ model.relations) :
    relation.location ∈ model.locations :=
  mem_locations_iff.mpr (.inr (.inr (.inr (.inl ⟨relation, listed, rfl⟩))))

theorem index_location_mem {index : Index} (listed : index ∈ model.indexes) :
    index.location ∈ model.locations :=
  mem_locations_iff.mpr (.inr (.inr (.inr (.inr ⟨index, listed, rfl⟩))))

end Model

/-- A finding that names no further lines is about one location. -/
theorem Diagnostic.locations_subset_of_alone {diagnostic : Diagnostic} {kept : List Location}
    (alone : diagnostic.related = []) (isThere : diagnostic.location ∈ kept) :
    diagnostic.locations ⊆ kept := by
  rw [locations, alone]
  exact List.cons_subset.mpr ⟨isThere, List.nil_subset _⟩

namespace Document

variable {document resolved : Document} {warnings : List Diagnostic}

/-- The locations in a model of a document are among those of the document. -/
theorem locations_subset_of_mem {model : Model} (listed : model ∈ document.models) :
    model.locations ⊆ document.locations := by
  intro location isThere
  exact List.mem_flatMap.mpr ⟨_, mem_models_iff.mp listed, isThere⟩

theorem location_mem {model : Model} (listed : model ∈ document.models) :
    model.location ∈ document.locations :=
  locations_subset_of_mem listed (Model.mem_locations_iff.mpr (.inl rfl))

theorem enumeration_location_mem {contents : Enumeration}
    (declared : Entity.enumeration contents ∈ document.entities) :
    contents.location ∈ document.locations :=
  List.mem_flatMap.mpr ⟨_, declared, List.mem_singleton_self _⟩

/-- The locations of a document are those of its models and enumerations. -/
theorem locations_subset {kept : List Location}
    (models : ∀ model ∈ document.models, model.locations ⊆ kept)
    (enumerations : ∀ contents, Entity.enumeration contents ∈ document.entities →
      contents.location ∈ kept) : document.locations ⊆ kept := by
  intro location listed
  obtain ⟨entity, declared, isThere⟩ := List.mem_flatMap.mp listed
  cases entity with
  | model contents => exact models contents (mem_models_iff.mpr declared) isThere
  | enumeration contents =>
      rw [List.mem_singleton.mp isThere]
      exact enumerations contents declared

/-! ## Resolution -/

open InheritanceGraph

/-- A document is refused for one of its models, at its header. -/
theorem FirstFault.locations_subset {fault : SchemaError} (isFirst : document.FirstFault fault) :
    fault.diagnostic.locations ⊆ document.locations := by
  cases isFirst with
  | @secondDefault first second more marked =>
      have listed : second ∈ document.models.filter Model.isDefault := by simp [marked]
      exact Diagnostic.locations_subset_of_alone rfl (location_mem (List.mem_filter.mp listed).1)
  | @refusedName model earlier later name before after fault _ models _ _ _ refuses =>
      have listed : model ∈ document.models := by simp [models]
      cases refuses <;> exact Diagnostic.locations_subset_of_alone rfl (location_mem listed)

/-- A repair is reported at a model and may refer to another one. -/
theorem repairWarning_locations_subset (graph : InheritanceGraph document.models.length)
    (members : graph.members = membersOf document) (repair : Repair document.models.length) :
    (graph.repairWarning repair).locations ⊆ document.locations := by
  have isThere : ∀ place, (graph.members.get place).location ∈ document.locations := by
    intro place
    rw [members]
    exact location_mem (get_membersOf_mem place)
  simp only [repairWarning]
  split
  · next fallback _ =>
      exact List.cons_subset.mpr
        ⟨isThere repair.child, List.cons_subset.mpr ⟨isThere fallback, List.nil_subset _⟩⟩
  · exact Diagnostic.locations_subset_of_alone rfl (isThere repair.child)

/-- A resolved model is made of parts of the document. -/
theorem resolvedMembers_locations_subset (place : Fin document.models.length) :
    ((resolvedMembers (membersOf document)).get place).locations ⊆ document.locations := by
  intro location listed
  have declared := locations_subset_of_mem (get_membersOf_mem place)
  have atHeader := location_mem (get_membersOf_mem place)
  rw [get_resolvedMembers, Model.mem_locations_iff] at listed
  rcases listed with rfl | ⟨field, owned, rfl⟩ | ⟨field, merged, rfl⟩ | ⟨relation, owned, rfl⟩ |
    ⟨index, owned, rfl⟩
  · exact atHeader
  · exact declared (Model.field_location_mem owned)
  · obtain ⟨ancestor, _, owned⟩ := exists_declares (acyclic_settled _) merged
    rw [members_settled] at owned
    exact locations_subset_of_mem (get_membersOf_mem ancestor) (Model.field_location_mem owned)
  · exact declared (Model.relation_location_mem owned)
  · exact declared (Model.index_location_mem owned)

/-- Resolution makes up no location. -/
theorem locations_subset_of_resolveInheritance
    (succeeds : document.resolveInheritance = .ok (resolved, warnings)) :
    resolved.locations ⊆ document.locations ∧
      warnings.flatMap Diagnostic.locations ⊆ document.locations := by
  constructor
  · refine locations_subset (fun model listed => ?_) fun contents declared => ?_
    · rw [models_of_resolveInheritance succeeds, ← map_get_finRange] at listed
      obtain ⟨place, _, rfl⟩ := List.mem_map.mp listed
      exact resolvedMembers_locations_subset place
    · exact enumeration_location_mem ((enumeration_mem_resolved succeeds).mp declared)
  · rw [warnings_of_resolveInheritance succeeds, List.flatMap_map]
    intro location listed
    obtain ⟨repair, _, isThere⟩ := List.mem_flatMap.mp listed
    exact repairWarning_locations_subset _ (members_settled _) repair isThere

/-- A document that cannot be resolved is refused at one of its locations. -/
theorem locations_subset_of_unresolvable {fault : SchemaError}
    (fails : document.resolveInheritance = .error fault) :
    fault.diagnostic.locations ⊆ document.locations := by
  have isFault : fault? document = some fault := by
    rw [resolveInheritance, build] at fails
    cases isFault : fault? document with
    | none =>
        rw [isFault] at fails
        contradiction
    | some first =>
        rw [isFault] at fails
        exact congrArg some (Except.error.inj fails)
  exact (fault?_eq_some_iff.mp isFault).locations_subset

end Document

/-! ## Classification -/

namespace Registry

/-- A field that is being classified stays in its place, and so do the warnings on it. -/
structure Progress.At (progress : Progress) (location : Location) : Prop where
  field : progress.field.location = location
  warnings : ∀ warning ∈ progress.warnings, warning.locations ⊆ [location]

theorem Progress.At.step {registry : Registry} {progress : Progress} {location : Location}
    (isAt : progress.At location) (call : Attribute) :
    (registry.step progress call).At location := by
  constructor
  · rw [registry.classifiesTo_step progress call]
    exact isAt.field
  · rw [Registry.step]
    split
    · exact isAt.warnings
    · split
      · exact isAt.warnings
      · simp only [List.forall_mem_append, List.forall_mem_singleton]
        refine ⟨isAt.warnings, Diagnostic.locations_subset_of_alone rfl ?_⟩
        exact List.mem_singleton.mpr isAt.field

/-- Classification warns about nothing but the field. -/
theorem classifyField_locations_subset (registry : Registry) (field : Field) :
    ∀ warning ∈ (registry.classifyField field).2, warning.locations ⊆ [field.location] := by
  have last : (field.attributes.foldl registry.step { field }).At field.location :=
    List.foldlRecOn (motive := (Progress.At · field.location)) field.attributes registry.step
      ⟨rfl, by simp⟩ fun _ isAt call _ => isAt.step call
  exact last.warnings

/-- Classified models have the locations that they had. -/
theorem locations_classifyModel (registry : Registry) (model : Model) :
    (registry.classifyModel model).locations = model.locations := by
  have kept : ∀ fields : List Field,
      (fields.map fun field => (registry.classifyField field).1).map Field.location =
        fields.map Field.location := by
    intro fields
    rw [List.map_map]
    exact List.map_congr_left fun field _ => registry.location_classifyField field
  simp only [Model.locations, classifyModel, kept]

/-- Classification makes up no location. -/
theorem classifyDocument_locations_subset (registry : Registry) (document : Document) :
    (registry.classifyDocument document).1.locations ⊆ document.locations ∧
      (registry.classifyDocument document).2.flatMap Diagnostic.locations ⊆ document.locations := by
  constructor
  · refine Document.locations_subset ?_ fun contents declared => ?_
    · rw [models_classifyDocument, List.forall_mem_map]
      intro model listed
      rw [locations_classifyModel]
      exact Document.locations_subset_of_mem listed
    · have isDeclared :=
        (Document.enumeration_mem_mapModels registry.name_classifyModel).mp declared
      exact Document.enumeration_location_mem isDeclared
  · intro location listed
    simp only [classifyDocument, List.mem_flatMap] at listed
    obtain ⟨warning, ⟨model, isModel, field, isField, isWarning⟩, isThere⟩ := listed
    have atField := registry.classifyField_locations_subset field warning isWarning isThere
    rw [List.mem_singleton] at atField
    rw [atField]
    exact Document.locations_subset_of_mem isModel (Model.field_location_mem isField)

end Registry

/-! ## Validation -/

/-- A check warns about a relation, an index or a field of a model. -/
theorem Validator.check_locations_subset (validator : Validator) (document : Document) :
    ∀ warning ∈ validator.check document, warning.locations ⊆ document.locations := by
  intro warning listed
  obtain ⟨model, isModel, isWarning⟩ := List.mem_flatMap.mp listed
  refine List.Subset.trans ?_ (Document.locations_subset_of_mem isModel)
  cases validator with
  | relationTarget =>
      obtain ⟨relation, isRelation, rfl⟩ := List.mem_map.mp isWarning
      have isListed := (List.mem_filter.mp isRelation).1
      exact Diagnostic.locations_subset_of_alone rfl (Model.relation_location_mem isListed)
  | indexField =>
      obtain ⟨index, isIndex, isAmong⟩ := List.mem_flatMap.mp isWarning
      obtain ⟨field, _, rfl⟩ := List.mem_map.mp isAmong
      exact Diagnostic.locations_subset_of_alone rfl (Model.index_location_mem isIndex)
  | foreignKeyTarget =>
      obtain ⟨field, isField, isAmong⟩ := List.mem_filterMap.mp isWarning
      obtain ⟨target, _, rfl⟩ := Option.map_eq_some_iff.mp isAmong
      have isListed := (List.mem_filter.mp isField).1
      exact Diagnostic.locations_subset_of_alone rfl (Model.field_location_mem isListed)

theorem Validator.checkAll_locations_subset (validators : List Validator) (document : Document) :
    (Validator.checkAll validators document).flatMap Diagnostic.locations ⊆ document.locations := by
  intro location listed
  obtain ⟨warning, isWarning, isThere⟩ := List.mem_flatMap.mp listed
  obtain ⟨validator, _, isFound⟩ := List.mem_flatMap.mp isWarning
  exact validator.check_locations_subset document warning isFound isThere

/-! ## Compilation -/

namespace Document

variable {document analyzed : Document} {warnings : List Diagnostic}

/-- Analysis makes up no location. -/
theorem locations_subset_of_analyze (succeeds : document.analyze = .ok (analyzed, warnings)) :
    analyzed.locations ⊆ document.locations ∧
      warnings.flatMap Diagnostic.locations ⊆ document.locations := by
  simp only [analyze, bind_eq_ok_iff, pure_eq_ok_iff, Prod.mk.injEq] at succeeds
  obtain ⟨⟨resolved, repairs⟩, isResolved, rfl, rfl⟩ := succeeds
  obtain ⟨resolves, repairsWithin⟩ := locations_subset_of_resolveInheritance isResolved
  obtain ⟨classifies, rejections⟩ := Registry.standard.classifyDocument_locations_subset resolved
  have classified := List.Subset.trans classifies resolves
  refine ⟨classified, ?_⟩
  simp only [List.flatMap_append, List.append_subset]
  exact ⟨⟨repairsWithin, List.Subset.trans rejections resolves⟩,
    List.Subset.trans (Validator.checkAll_locations_subset _ _) classified⟩

/-- Analysis that fails is refused at a location of the document. -/
theorem locations_subset_of_analyze_error {fault : SchemaError}
    (fails : document.analyze = .error fault) :
    fault.diagnostic.locations ⊆ document.locations := by
  refine locations_subset_of_unresolvable ?_
  cases outcome : document.resolveInheritance with
  | error first =>
      rw [analyze, outcome] at fails
      exact congrArg Except.error (Except.error.inj fails)
  | ok resolved =>
      rw [analyze, outcome] at fails
      contradiction

end Document

/-- The locations that a compilation returns: those in the document and in the warnings, or else
those in the findings that ended it. -/
def compiledLocations : Except CompileError Compiled → List Location
  | .ok compiled => compiled.document.locations ++ compiled.warnings.flatMap Diagnostic.locations
  | .error error => error.diagnostics.flatMap Diagnostic.locations

/-- A compilation names no other places than those of the lines that say something. -/
theorem compiledLocations_subset (options : CompilerOptions) (source : Text) :
    compiledLocations (compile options source) ⊆ (spokenLines source).map Line.location := by
  cases isRead : Document.read options.toReadingOptions source with
  | error fault =>
      rw [compile_of_unreadable isRead, compiledLocations, CompileError.diagnostics,
        List.flatMap_singleton]
      exact Document.locations_subset_of_refused (Document.read_eq _ _ ▸ isRead)
  | ok outcome =>
      obtain ⟨document, unknownSections⟩ := outcome
      obtain ⟨declared, unknown⟩ :=
        Document.locations_subset_of_ofSpokenLines (Document.read_eq _ _ ▸ isRead)
      cases isAnalyzed : document.analyze with
      | error fault =>
          rw [compile_of_unresolvable isRead isAnalyzed, compiledLocations,
            CompileError.diagnostics, List.flatMap_singleton]
          exact List.Subset.trans (Document.locations_subset_of_analyze_error isAnalyzed) declared
      | ok outcome =>
          obtain ⟨analyzed, found⟩ := outcome
          obtain ⟨within, foundWithin⟩ := Document.locations_subset_of_analyze isAnalyzed
          have warnings : (unknownSections ++ found).flatMap Diagnostic.locations ⊆
              (spokenLines source).map Line.location := by
            rw [List.flatMap_append, List.append_subset]
            exact ⟨unknown, List.Subset.trans foundWithin declared⟩
          rw [compile_of_analyzed isRead isAnalyzed]
          split
          · exact warnings
          · exact List.append_subset.mpr ⟨List.Subset.trans within declared, warnings⟩

/-- Every location that a compilation returns is a line of its source. -/
theorem compile_locations (options : CompilerOptions) (source : Text) :
    ∀ location ∈ compiledLocations (compile options source), location.IsLineOf source := by
  intro location listed
  obtain ⟨line, isLine, rfl⟩ := List.mem_map.mp (compiledLocations_subset options source listed)
  exact isLineOf_readLines source line (List.mem_filter.mp isLine).1

/-- A field with a warning, behind letters of two bytes and lines that end with `\r\n`. -/
def greetings : Text :=
  "# Grüße\r\n## Greeting\r\n- text: string [MaxLength(0)]".toList

/-- The entity stands in the second line. The field, its copy among the inherited and declared
fields and the warning on it stand in the third. -/
theorem greetings_locations :
    compiledLocations (compile {} greetings) =
        { line := 2, text := "## Greeting", span := ⟨11, 22⟩ } ::
          List.replicate 3
            { line := 3, text := "- text: string [MaxLength(0)]", span := ⟨24, 53⟩ } ∧
      Location.IsLineOf greetings { line := 2, text := "## Greeting", span := ⟨11, 22⟩ } ∧
      Location.IsLineOf greetings
        { line := 3, text := "- text: string [MaxLength(0)]", span := ⟨24, 53⟩ } := by
  have isLine := compile_locations {} greetings
  have listed : compiledLocations (compile {} greetings) =
      { line := 2, text := "## Greeting", span := ⟨11, 22⟩ } ::
        List.replicate 3
          { line := 3, text := "- text: string [MaxLength(0)]", span := ⟨24, 53⟩ } := by
    decide +kernel
  rw [listed] at isLine
  exact ⟨listed, isLine _ List.mem_cons_self,
    isLine _ (List.mem_cons_of_mem _ List.mem_cons_self)⟩

end SchemaMarkup
