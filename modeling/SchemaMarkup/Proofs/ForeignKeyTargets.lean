import SchemaMarkup.Proofs.Classification
import SchemaMarkup.Proofs.Inheritance.InheritedFields
import SchemaMarkup.Proofs.Reading.ForeignKeys
import SchemaMarkup.Proofs.Reading.ItemLines

/-!
# Targets of foreign keys

Three stages have to agree on what a foreign key leads to. Reading infers targets among the models
as they were declared, classification sets the targets that attributes name, and validation looks
every target up in the document at the end. `compile_foreignKeyTargets` says what comes of it: a
declared foreign key whose target is no model has one warning, at its own line, and nothing else
has. In particular a target that was inferred is found again, and a field is not reported once more
for each entity that inherits it.

A field is told by its place here. Its name would not do: identifiers may hold dots, so that two
fields can go by one name `Entity.field` in the texts of warnings.
-/

namespace SchemaMarkup

/-! ## What a compilation warns of -/

namespace Document

/-- A name that leads to a model of the document. -/
def LeadsToModel (document : Document) (name : String) : Prop :=
  ∃ target, document.lookup? name = some (.model target) ∧ target.kind = .model

/-- A foreign key of the document whose target is no model. -/
structure Misses (document : Document) (field : Field) (target : String) : Prop where
  isForeignKey : field.flags.foreignKey = true
  hasTarget : field.referenceTarget = some target
  missing : ¬document.LeadsToModel target

end Document

namespace Compiled

/-- The warnings of a compilation on unknown targets of foreign keys. -/
def foreignKeyWarnings (compiled : Compiled) : List Diagnostic :=
  compiled.warnings.filter fun warning => warning.code == .unknownForeignKeyTarget

/-- Those of them at some place. -/
def foreignKeyWarningsAt (compiled : Compiled) (location : Location) : List Diagnostic :=
  compiled.foreignKeyWarnings.filter fun warning => warning.location == location

/-- The warnings on targets are those on the declared foreign keys that lead to no model, one for
each. -/
structure WarnsOfTargets (compiled : Compiled) : Prop where
  missing : ∀ model ∈ compiled.document.models, ∀ field ∈ model.fields, ∀ target,
    compiled.document.Misses field target →
      compiled.foreignKeyWarningsAt field.location =
        [.unknownForeignKeyTarget s!"{model.name}.{field.name}" target field.location]
  found : ∀ model ∈ compiled.document.models, ∀ field ∈ model.fields,
    (∀ target, ¬compiled.document.Misses field target) →
      compiled.foreignKeyWarningsAt field.location = []
  noOther : ∀ warning ∈ compiled.foreignKeyWarnings, ∃ model ∈ compiled.document.models,
    ∃ field ∈ model.fields, ∃ target, compiled.document.Misses field target ∧
      warning = .unknownForeignKeyTarget s!"{model.name}.{field.name}" target field.location

/-- Every field that refers to a model by its name, in the document as it is read without looking
for such fields, ends up as a foreign key to that model and has no warning. -/
def FindsInferredTargets (compiled : Compiled) (options : ReadingOptions) (source : Text) : Prop :=
  ∃ declared unknownSections,
    Document.read { options with infersForeignKeys := false } source =
      .ok (declared, unknownSections) ∧
    ∀ model ∈ declared.models, ∀ field ∈ model.fields, ∀ target,
      declared.RefersByName field target →
        compiled.foreignKeyWarningsAt field.location = [] ∧
        ∃ owner ∈ compiled.document.models, owner.name = model.name ∧
          ∃ own ∈ owner.fields, own.name = field.name ∧ own.location = field.location ∧
            own.flags.foreignKey = true ∧ own.referenceTarget = some target.name

end Compiled

namespace Document

variable {document : Document}

theorem namesModel_iff {name : String} :
    document.namesModel name = true ↔ document.LeadsToModel name := by
  rw [namesModel, LeadsToModel]
  cases document.lookup? name with
  | none => simp
  | some entity =>
      cases entity with
      | enumeration contents => simp [Entity.kind]
      | model contents =>
          cases isKind : contents.kind <;> simp [Entity.kind, isKind, ModelKind.entityKind]

/-- The warning on a field that is a foreign key without a model. -/
def targetWarning? (document : Document) (field : Field) : Option Diagnostic :=
  if field.flags.foreignKey then
    (field.referenceTarget.filter fun target => !document.namesModel target).map fun target =>
      .unknownForeignKeyTarget s!"{field.declaredIn}.{field.name}" target field.location
  else
    none

theorem targetWarning?_eq_some_iff {field : Field} {warning : Diagnostic} :
    document.targetWarning? field = some warning ↔ ∃ target, document.Misses field target ∧
      warning = .unknownForeignKeyTarget s!"{field.declaredIn}.{field.name}" target
        field.location := by
  have names : ∀ target, (!document.namesModel target) = true ↔ ¬document.LeadsToModel target := by
    intro target
    rw [← namesModel_iff, Bool.not_eq_true', Bool.not_eq_true]
  rw [targetWarning?]
  split
  · next isForeignKey =>
      simp only [Option.map_eq_some_iff, Option.filter_eq_some_iff, names]
      constructor
      · rintro ⟨target, ⟨hasTarget, missing⟩, rfl⟩
        exact ⟨target, ⟨isForeignKey, hasTarget, missing⟩, rfl⟩
      · rintro ⟨target, ⟨_, hasTarget, missing⟩, rfl⟩
        exact ⟨target, ⟨hasTarget, missing⟩, rfl⟩
  · next isNone =>
      simp only [reduceCtorEq, false_iff]
      rintro ⟨_, misses, _⟩
      exact isNone misses.isForeignKey

/-- The check on foreign keys goes over the declared fields of the document. -/
theorem check_foreignKeyTarget (owns : document.OwnsFields) :
    Validator.foreignKeyTarget.check document =
      document.ownFields.filterMap document.targetWarning? := by
  rw [Validator.check, ownFields, List.filterMap_flatMap]
  refine List.flatMap_congr fun model listed => ?_
  change document.checkForeignKeys model = _
  rw [checkForeignKeys, List.filterMap_filter]
  refine List.filterMap_congr fun field isField => ?_
  rw [targetWarning?, (owns model listed).declaredIn field isField]

/-- Analysis keeps the names and kinds of models, and classifies the fields that they declare. -/
theorem models_of_analyze {analyzed : Document} {found : List Diagnostic}
    (succeeds : document.analyze = .ok (analyzed, found)) :
    ∃ change : Model → Model, analyzed.models = document.models.map change ∧
      ∀ model, (change model).name = model.name ∧ (change model).kind = model.kind ∧
        (change model).fields =
          model.fields.map fun field => (Registry.standard.classifyField field).1 := by
  obtain ⟨resolved, repairs, isResolved, rfl, _⟩ := analyze_eq_ok_iff.mp succeeds
  simp only [resolveInheritance, bind_eq_ok_iff, pure_eq_ok_iff, Prod.mk.injEq] at isResolved
  obtain ⟨graph, _, rfl, _⟩ := isResolved
  rw [Registry.models_classifyDocument, models_mapModels, List.map_map]
  refine ⟨_, rfl, fun model => ?_⟩
  simp only [Function.comp_apply, Registry.classifyModel, InheritanceGraph.resolveModel]
  split <;> exact ⟨rfl, rfl, rfl⟩

/-- Analysis leaves the declared fields where they belong. -/
theorem OwnsFields.of_analyze (owns : document.OwnsFields) {analyzed : Document}
    {found : List Diagnostic} (succeeds : document.analyze = .ok (analyzed, found)) :
    analyzed.OwnsFields := by
  obtain ⟨_, _, isResolved, rfl, _⟩ := analyze_eq_ok_iff.mp succeeds
  exact (owns.of_resolveInheritance isResolved).classifyDocument Registry.standard

/-- Analysis classifies the declared fields one by one. -/
theorem ownFields_of_analyze {analyzed : Document} {found : List Diagnostic}
    (succeeds : document.analyze = .ok (analyzed, found)) :
    analyzed.ownFields =
      document.ownFields.map fun field => (Registry.standard.classifyField field).1 := by
  obtain ⟨change, models, keeps⟩ := models_of_analyze succeeds
  rw [ownFields, ownFields, models, List.flatMap_map, List.map_flatMap]
  exact List.flatMap_congr fun model _ => (keeps model).2.2

end Document

/-- Of values made of items with distinct keys, those of one key are made of the item of that
key. -/
theorem filter_key_filterMap {Item Value Key : Type} [BEq Key] [LawfulBEq Key] {items : List Item}
    {make : Item → Option Value} {keyOf : Item → Key} {key : Value → Key}
    (distinct : (items.map keyOf).Nodup)
    (keeps : ∀ item value, make item = some value → key value = keyOf item) {item : Item}
    (listed : item ∈ items) :
    ((items.filterMap make).filter fun value => key value == keyOf item) =
      (make item).toList := by
  have noneElsewhere : ∀ rest : List Item, keyOf item ∉ rest.map keyOf →
      ((rest.filterMap make).filter fun value => key value == keyOf item) = [] := by
    intro rest absent
    rw [List.filter_eq_nil_iff]
    intro value isValue same
    obtain ⟨other, isOther, made⟩ := List.mem_filterMap.mp isValue
    have sameKey := (keeps other value made).symm.trans (eq_of_beq same)
    exact absent (List.mem_map.mpr ⟨other, isOther, sameKey⟩)
  obtain ⟨before, after, rfl⟩ := List.append_of_mem listed
  rw [List.map_append, List.map_cons, List.nodup_append, List.nodup_cons] at distinct
  obtain ⟨_, ⟨notAfter, _⟩, apart⟩ := distinct
  have notBefore : keyOf item ∉ before.map keyOf := fun isBefore =>
    apart _ isBefore _ List.mem_cons_self rfl
  rw [List.filterMap_append, List.filter_append, noneElsewhere before notBefore, List.nil_append]
  cases made : make item with
  | none => rw [List.filterMap_cons_none made, noneElsewhere after notAfter, Option.toList_none]
  | some value =>
      rw [List.filterMap_cons_some made,
        List.filter_cons_of_pos (by simpa using keeps item value made),
        noneElsewhere after notAfter, Option.toList_some]

/-! ## Compilation -/

/-- Findings of another code do not count. -/
theorem filter_code_eq_nil {found : List Diagnostic} {code other : Code}
    (warns : ∀ warning ∈ found, warning.Warns other) (different : other ≠ code) :
    (found.filter fun warning => warning.code == code) = [] := by
  rw [List.filter_eq_nil_iff]
  intro warning listed same
  exact different ((warns warning listed).code.symm.trans (eq_of_beq same))

/-- Of all the stages of a compilation, the last check alone warns of targets. -/
theorem foreignKeyWarnings_of_compile {options : CompilerOptions} {source : Text}
    {compiled : Compiled} (succeeds : compile options source = .ok compiled) :
    compiled.foreignKeyWarnings = Validator.foreignKeyTarget.check compiled.document := by
  obtain ⟨document, unknownSections, found, isRead, isAnalyzed, isWarnings, _⟩ :=
    compile_eq_ok_iff.mp succeeds
  obtain ⟨resolved, repairs, isResolved, _, rfl⟩ := Document.analyze_eq_ok_iff.mp isAnalyzed
  have ofCheck := fun validator : Validator => validator.warns_check compiled.document
  rw [Compiled.foreignKeyWarnings, isWarnings]
  simp only [List.filter_append, Validator.checkAll, Validator.standard, List.flatMap_cons,
    List.flatMap_nil, List.append_nil]
  rw [filter_code_eq_nil (Document.warns_read isRead) (by decide),
    filter_code_eq_nil (Document.warns_resolveInheritance isResolved) (by decide),
    filter_code_eq_nil (Registry.standard.warns_classifyDocument resolved) (by decide),
    filter_code_eq_nil (ofCheck .relationTarget) (by decide),
    filter_code_eq_nil (ofCheck .indexField) (by decide)]
  simp only [List.nil_append, List.filter_eq_self]
  intro warning listed
  exact beq_iff_eq.mpr (ofCheck .foreignKeyTarget warning listed).code

theorem warnsOfTargets_of_compile {options : CompilerOptions} {source : Text}
    {compiled : Compiled} (succeeds : compile options source = .ok compiled) :
    compiled.WarnsOfTargets := by
  have warnings := foreignKeyWarnings_of_compile succeeds
  obtain ⟨document, unknownSections, found, isRead, isAnalyzed, _⟩ :=
    compile_eq_ok_iff.mp succeeds
  have owns := (Document.ownsFields_of_read isRead).of_analyze isAnalyzed
  have distinct : (compiled.document.ownFields.map Field.location).Nodup := by
    rw [Document.ownFields_of_analyze isAnalyzed, List.map_map]
    have places : Field.location ∘ (fun field => (Registry.standard.classifyField field).1) =
        Field.location := funext Registry.standard.location_classifyField
    rw [places]
    exact Document.nodup_location_ownFields isRead
  rw [Document.check_foreignKeyTarget owns] at warnings
  have atField : ∀ field ∈ compiled.document.ownFields,
      compiled.foreignKeyWarningsAt field.location =
        (compiled.document.targetWarning? field).toList := by
    intro field listed
    rw [Compiled.foreignKeyWarningsAt, warnings]
    refine filter_key_filterMap distinct (fun other warning isWarning => ?_) listed
    obtain ⟨_, _, rfl⟩ := Document.targetWarning?_eq_some_iff.mp isWarning
    rfl
  exact {
    missing := fun model listed field isField target misses => by
      have isWarning := Document.targetWarning?_eq_some_iff.mpr ⟨target, misses, rfl⟩
      rw [atField field (List.mem_flatMap.mpr ⟨model, listed, isField⟩), isWarning,
        (owns model listed).declaredIn field isField, Option.toList_some]
    found := fun model listed field isField leads => by
      have isNone : compiled.document.targetWarning? field = none := by
        rw [Option.eq_none_iff_forall_not_mem]
        intro warning isWarning
        obtain ⟨target, misses, _⟩ := Document.targetWarning?_eq_some_iff.mp isWarning
        exact leads target misses
      rw [atField field (List.mem_flatMap.mpr ⟨model, listed, isField⟩), isNone,
        Option.toList_none]
    noOther := fun warning listed => by
      rw [warnings] at listed
      obtain ⟨field, isOwn, isWarning⟩ := List.mem_filterMap.mp listed
      obtain ⟨model, isModel, isField⟩ := List.mem_flatMap.mp isOwn
      obtain ⟨target, misses, rfl⟩ := Document.targetWarning?_eq_some_iff.mp isWarning
      refine ⟨model, isModel, field, isField, target, misses, ?_⟩
      rw [(owns model isModel).declaredIn field isField] }

/-! ## Targets that are inferred -/

namespace Document

variable {document : Document}

/-- A name leads to the model that is called so. -/
theorem leadsToModel_name {model : Model} (listed : model ∈ document.models)
    (isModel : model.kind = .model) : document.LeadsToModel model.name := by
  refine ⟨model, ?_, isModel⟩
  have isFound : document.find? model.name = some (.model model) :=
    find?_eq_some_iff.mpr ⟨mem_models_iff.mp listed, rfl⟩
  rw [lookup?, findNamed?]
  exact Option.or_eq_some_iff.mpr (.inl isFound)

/-- A name that leads to a model among the declared ones leads to one that is declared. -/
theorem NamesModel.mem {name : String} {target : Model} (names : document.NamesModel name target) :
    target ∈ document.modelsOfKind .model := by
  cases names with
  | exact isModel _ => exact isModel
  | inAnyCase _ models _ _ => simp [models]

/-- The name of a model still leads to a model when the document is analyzed. -/
theorem leadsToModel_of_analyze {analyzed : Document} {found : List Diagnostic}
    (succeeds : document.analyze = .ok (analyzed, found)) {model : Model}
    (listed : model ∈ document.models) (isModel : model.kind = .model) :
    analyzed.LeadsToModel model.name := by
  obtain ⟨change, models, keeps⟩ := models_of_analyze succeeds
  obtain ⟨name, kind, _⟩ := keeps model
  have leads := leadsToModel_name (models ▸ List.mem_map_of_mem listed) (kind.trans isModel)
  exact name ▸ leads

/-- A field that refers to a model by its name becomes a foreign key to that model, and as no
attribute marks it, no handler changes that. -/
theorem RefersByName.classified {field : Field} {target : Model}
    (refers : document.RefersByName field target) :
    let classified := (Registry.standard.classifyField (document.inferForeignKey field)).1
    classified.name = field.name ∧ classified.location = field.location ∧
      classified.flags.foreignKey = true ∧ classified.referenceTarget = some target.name := by
  have inferred := (document.fieldInferred_inferForeignKey field).refers target refers
  have unmarked : (document.inferForeignKey field).hasExplicitForeignKey = false := by
    rw [inferred]
    exact hasExplicitForeignKey_eq_false_iff.mpr refers.unmarked
  have kept : (document.inferForeignKey field).SameTarget
      (Registry.standard.classifyField (document.inferForeignKey field)).1 :=
    Registry.sameTarget_classifyField unmarked
  have named := (Registry.standard.sameOrigin_classifyField (document.inferForeignKey field)).name
  have place := Registry.standard.location_classifyField (document.inferForeignKey field)
  rw [inferred] at kept named place ⊢
  exact ⟨named, place, kept.foreignKey, kept.referenceTarget⟩

end Document

/-- A document that was read with foreign keys by name could have been read without them. -/
theorem Document.exists_uninferred {options : ReadingOptions} {source : Text} {document : Document}
    {warnings : List Diagnostic} (infers : options.infersForeignKeys = true)
    (isRead : read options source = .ok (document, warnings)) :
    ∃ declared, read { options with infersForeignKeys := false } source = .ok (declared, warnings) ∧
      document = declared.inferForeignKeys := by
  rw [read_eq, ofSpokenLines_eq_ok_iff, infers] at isRead
  obtain ⟨declared, isDeclared, isDocument⟩ := isRead
  refine ⟨declared, ?_, isDocument⟩
  rw [read_eq, ofSpokenLines_eq_ok_iff]
  exact ⟨declared, isDeclared, rfl⟩

theorem findsInferredTargets_of_compile {options : CompilerOptions} {source : Text}
    {compiled : Compiled} (infers : options.infersForeignKeys = true)
    (succeeds : compile options source = .ok compiled) :
    compiled.FindsInferredTargets options.toReadingOptions source := by
  obtain ⟨document, unknownSections, found, isRead, isAnalyzed, _⟩ :=
    compile_eq_ok_iff.mp succeeds
  obtain ⟨declared, isDeclared, rfl⟩ := Document.exists_uninferred infers isRead
  have isInferred : ∀ model ∈ declared.models,
      { model with fields := model.fields.map declared.inferForeignKey } ∈
        declared.inferForeignKeys.models := by
    intro model listed
    rw [Document.inferForeignKeys, Document.models_mapModels]
    exact List.mem_map_of_mem listed
  refine ⟨declared, unknownSections, isDeclared, fun model listed field isField target refers => ?_⟩
  obtain ⟨_, _, names⟩ := refers.named
  obtain ⟨isTarget, isModel⟩ := List.mem_filter.mp names.mem
  have leads := Document.leadsToModel_of_analyze isAnalyzed (isInferred target isTarget)
    (eq_of_beq isModel)
  obtain ⟨change, models, keeps⟩ := Document.models_of_analyze isAnalyzed
  obtain ⟨name, _, fields⟩ := keeps
    { model with fields := model.fields.map declared.inferForeignKey }
  have isOwner := models ▸ List.mem_map_of_mem (isInferred model listed)
  have isOwn := fields ▸ List.mem_map_of_mem (List.mem_map_of_mem isField)
  obtain ⟨named, place, foreignKey, hasTarget⟩ := refers.classified
  refine ⟨?_, _, isOwner, name, _, isOwn, named, place, foreignKey, hasTarget⟩
  have warns := (warnsOfTargets_of_compile succeeds).found _ isOwner _ isOwn
  rw [place] at warns
  refine warns fun other misses => misses.missing ?_
  obtain rfl : target.name = other := Option.some.inj (hasTarget.symm.trans misses.hasTarget)
  exact leads

/-- The warnings on targets of foreign keys are those on the declared foreign keys that lead to no
model, one for each, and a foreign key that was inferred from a name is none of these. -/
theorem compile_foreignKeyTargets {options : CompilerOptions} {source : Text} {compiled : Compiled}
    (succeeds : compile options source = .ok compiled) :
    compiled.WarnsOfTargets ∧
      (options.infersForeignKeys = true →
        compiled.FindsInferredTargets options.toReadingOptions source) :=
  ⟨warnsOfTargets_of_compile succeeds,
    fun infers => findsInferredTargets_of_compile infers succeeds⟩

/-- A misspelled target in an interface, a field that inherits it, and two foreign keys to a model,
one of them by its name. -/
def orders : Text :=
  "## Owned ::interface
- owner: guid @ref(Acount)
## Account
- name: string
## Order : Owned
- ACCOUNT_id: guid
- payer: guid [fk(account)]".toList

/-- The target in the second line is missed once, although two entities have the field. -/
theorem orders_foreignKeyTargets :
    ∃ compiled, compile {} orders = .ok compiled ∧
      (compiled.foreignKeyWarnings.map fun warning => (warning.location.line, warning.message)) =
        [(2, "Foreign key 'Owned.owner' references unknown entity 'Acount'")] ∧
      (compiled.document.models.map fun model => model.fullFields.map Field.referenceTarget) =
        [[some "Acount"], [none], [some "Acount", some "Account", some "account"]] ∧
      compiled.WarnsOfTargets ∧ compiled.FindsInferredTargets {} orders := by
  have declared : ((compile {} orders).map fun compiled =>
      (compiled.foreignKeyWarnings.map fun warning => (warning.location.line, warning.message),
        compiled.document.models.map fun model => model.fullFields.map Field.referenceTarget)) =
      .ok ([(2, "Foreign key 'Owned.owner' references unknown entity 'Acount'")],
        [[some "Acount"], [none], [some "Acount", some "Account", some "account"]]) := by
    decide +kernel
  obtain ⟨compiled, succeeds, shown⟩ := map_eq_ok_iff.mp declared
  obtain ⟨warnings, targets⟩ := Prod.mk.inj shown
  obtain ⟨warns, finds⟩ := compile_foreignKeyTargets succeeds
  exact ⟨compiled, succeeds, warnings, targets, warns, finds rfl⟩

end SchemaMarkup
