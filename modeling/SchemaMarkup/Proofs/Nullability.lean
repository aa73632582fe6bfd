import SchemaMarkup.Proofs.Classification
import SchemaMarkup.Proofs.Inheritance.InheritedFields
import SchemaMarkup.Proofs.Reading.SourceBlocks

/-!
# Fields that exclude null

A type and a property line may make a field nullable, and two attributes take that back: those of
primary keys and of required fields. What matters is who speaks last. Types and property lines
are read before any attribute is applied, and no handler makes a field nullable, so no order of
attributes leaves a primary key or a required field nullable (`Registry.Progress.Excludes` is the
invariant). One function is applied to declared fields and to their inherited copies, and
`compile_excludesNull` speaks of both.
-/

namespace SchemaMarkup

namespace Field

/-- A field to which no attribute has been applied. It may still be a foreign key by its name. -/
def IsUnclassified (field : Field) : Prop :=
  field.flags = { foreignKey := field.flags.foreignKey }

/-- An attribute that marks a primary key. -/
def MarksKey (call : Attribute) : Prop :=
  ∃ mark ∈ ["pk", "key", "primarykey", "primary"], equalIgnoringCase call.name mark = true

/-- A field is a primary key if one of its attributes says so, and neither a primary key nor a
required field is nullable. -/
structure ExcludesNull (field : Field) : Prop where
  notNullable : field.flags.primaryKey = true ∨ field.flags.required = true → field.nullable = false
  isKey : field.flags.primaryKey = true ↔
    ∃ call ∈ field.frameworkAttributes ++ field.semanticAttributes, MarksKey call

end Field

/-! ## Handlers -/

namespace Handler

/-- Each of the two handlers that exclude null sets its flag and makes the field not nullable. The
others leave both flags and the nullability alone. -/
theorem apply_nullability {handler : Handler} {field changed : Field} {call : Attribute}
    (run : handler.apply field call = .ok changed) :
    (changed.flags.primaryKey = true ↔ field.flags.primaryKey = true ∨ handler = .primaryKey) ∧
      (changed.flags.required = true ↔ field.flags.required = true ∨ handler = .required) ∧
      (changed.nullable = true ↔
        field.nullable = true ∧ handler ≠ .primaryKey ∧ handler ≠ .required) := by
  cases Handler.changes_apply run <;> simp [FieldFlags.add]

/-- The handler of primary keys takes any arguments. -/
theorem ne_primaryKey_of_apply_error {handler : Handler} {field : Field} {call : Attribute}
    {rejection : Rejection} (rejects : handler.apply field call = .error rejection) :
    handler ≠ .primaryKey := by
  rintro rfl
  contradiction

theorem mem_standard (handler : Handler) : handler ∈ Registry.standard.handlers := by
  cases handler with
  | expression trigger => cases trigger <;> decide
  | _ => decide

/-- No two handlers answer to one name. -/
theorem eq_of_answersTo {handler other : Handler} {name : String}
    (answers : handler.answersTo name = true) (alsoAnswers : other.answersTo name = true) :
    handler = other := by
  have apart : ∀ handler ∈ Registry.standard.handlers, ∀ other ∈ Registry.standard.handlers,
      ∀ own ∈ handler.names, ∀ others ∈ other.names,
        own.toList.map Char.toLower = others.toList.map Char.toLower → handler = other := by
    decide +kernel
  obtain ⟨own, isOwn, alike⟩ := List.any_eq_true.mp answers
  obtain ⟨others, isOther, alsoAlike⟩ := List.any_eq_true.mp alsoAnswers
  rw [equalIgnoringCase_iff] at alike alsoAlike
  exact apart handler handler.mem_standard other other.mem_standard own isOwn others isOther
    (alike.trans alsoAlike.symm)

end Handler

namespace Registry

/-- Among all handlers a name leads to the one that answers to it. -/
theorem handlerFor?_standard_iff {name : String} {handler : Handler} :
    standard.handlerFor? name = some handler ↔ handler.answersTo name = true := by
  have ofFound : ∀ found, standard.handlerFor? name = some found → found.answersTo name = true :=
    fun found isFound => List.find?_some (p := fun handler : Handler => handler.answersTo name)
      isFound
  constructor
  · exact ofFound handler
  · intro answers
    cases isFound : standard.handlerFor? name with
    | none =>
        have listed := List.mem_reverse.mpr handler.mem_standard
        exact absurd answers (List.find?_eq_none.mp isFound handler listed)
    | some found => rw [Handler.eq_of_answersTo (ofFound found isFound) answers]

/-- The attributes that mark a primary key are those that lead to its handler. -/
theorem handlerFor?_eq_primaryKey_iff {call : Attribute} :
    standard.handlerFor? call.name = some .primaryKey ↔ Field.MarksKey call := by
  have sameLetters : Handler.primaryKey.names.map (fun own => own.toList.map Char.toLower) =
      ["pk", "key", "primarykey", "primary"].map fun mark => mark.toList.map Char.toLower := by
    decide +kernel
  have answers_iff : Handler.primaryKey.answersTo call.name = true ↔
      call.name.toList.map Char.toLower ∈
        Handler.primaryKey.names.map fun own => own.toList.map Char.toLower := by
    simp only [Handler.answersTo, List.any_eq_true, equalIgnoringCase_iff, List.mem_map]
  rw [handlerFor?_standard_iff, answers_iff, sameLetters, List.mem_map, Field.MarksKey]
  simp only [equalIgnoringCase_iff]
  exact exists_congr fun mark => and_congr_right fun _ => eq_comm

/-! ## Classification -/

/-- What holds of a field of which some attributes have been applied. -/
structure Progress.Excludes (progress : Progress) (applied : List Attribute) : Prop where
  notNullable : progress.field.flags.primaryKey = true ∨ progress.field.flags.required = true →
    progress.field.nullable = false
  isKey : progress.field.flags.primaryKey = true ↔ ∃ call ∈ applied, Field.MarksKey call

variable {progress : Progress} {applied : List Attribute}

/-- One more attribute excludes null or leaves the nullability alone. -/
theorem Progress.Excludes.step (excludes : progress.Excludes applied) (call : Attribute) :
    (standard.step progress call).Excludes (applied ++ [call]) := by
  have withCall : (∃ other ∈ applied ++ [call], Field.MarksKey other) ↔
      progress.field.flags.primaryKey = true ∨ Field.MarksKey call := by
    rw [excludes.isKey]
    simp only [List.mem_append, List.mem_singleton, or_and_right, exists_or, exists_eq_left]
  rw [← handlerFor?_eq_primaryKey_iff] at withCall
  rw [Registry.step]
  split
  · next isNone =>
      refine ⟨excludes.notNullable, ?_⟩
      rw [withCall, isNone]
      simp
  · next handler isHandler =>
      rw [isHandler, Option.some.injEq] at withCall
      split
      · next changed isApplied =>
          obtain ⟨isKey, isRequired, isNullable⟩ := Handler.apply_nullability isApplied
          refine ⟨fun excluding => ?_, isKey.trans withCall.symm⟩
          rw [Bool.eq_false_iff, ne_eq, isNullable]
          rintro ⟨nullable, isNoKey, isNotRequired⟩
          have before := excludes.notNullable
            (excluding.imp (fun key => (isKey.mp key).resolve_right isNoKey)
              fun required => (isRequired.mp required).resolve_right isNotRequired)
          rw [before] at nullable
          contradiction
      · next rejection isRejected =>
          refine ⟨excludes.notNullable, ?_⟩
          rw [withCall, or_iff_left (Handler.ne_primaryKey_of_apply_error isRejected)]

theorem Progress.Excludes.run (excludes : progress.Excludes applied) (calls : List Attribute) :
    (calls.foldl standard.step progress).Excludes (applied ++ calls) := by
  induction calls generalizing progress applied with
  | nil => rwa [List.append_nil]
  | cons call later inductionHypothesis =>
      have whole := inductionHypothesis (excludes.step call)
      rwa [List.append_assoc] at whole

/-- Whatever a field declares, its attributes have the last word on null. -/
theorem excludesNull_classifyField {field : Field} (unclassified : field.IsUnclassified) :
    (standard.classifyField field).1.ExcludesNull := by
  have start : Progress.Excludes { field } [] := by
    refine ⟨?_, ?_⟩ <;> rw [unclassified] <;> simp
  have applied := start.run field.attributes
  have kept := standard.classifiesTo_classifyField field
  have sameAttributes : (standard.classifyField field).1.frameworkAttributes ++
      (standard.classifyField field).1.semanticAttributes = field.attributes := by
    rw [kept]
    rfl
  exact ⟨applied.notNullable, sameAttributes.symm ▸ applied.isKey⟩

end Registry

/-! ## Documents -/

/-- A model whose declared fields are unclassified. -/
def Model.DeclaresUnclassified (model : Model) : Prop :=
  ∀ field ∈ model.fields, field.IsUnclassified

namespace Document

/-- Inference keeps a field unclassified. -/
theorem isUnclassified_inferForeignKey (document : Document) {field : Field}
    (unclassified : field.IsUnclassified) :
    (document.inferForeignKey field).IsUnclassified := by
  rw [inferForeignKey]
  split
  · rw [Field.IsUnclassified, unclassified]
    rfl
  · exact unclassified

/-- Reading applies no attribute. -/
theorem declaresUnclassified_of_read {options : ReadingOptions} {source : Text}
    {document : Document} {warnings : List Diagnostic}
    (isRead : read options source = .ok (document, warnings)) :
    ∀ model ∈ document.models, model.DeclaresUnclassified := by
  have unflagged : ∀ {field : Field}, field.flags = {} → field.IsUnclassified := fun none => by
    rw [Field.IsUnclassified, none]
  refine forall_models_of_read (fun _ _ _ _ _ _ _ run field listed =>
    unflagged (Model.flags_of_read run field listed)) ?_ isRead
  intro declared model unclassified
  exact List.forall_mem_map.mpr fun field listed =>
    declared.isUnclassified_inferForeignKey (unclassified field listed)

/-- The declared and the inherited fields of a resolved document are those that were read. -/
theorem isUnclassified_of_resolved {document resolved : Document} {repairs : List Diagnostic}
    (owns : document.OwnsFields)
    (unclassified : ∀ model ∈ document.models, model.DeclaresUnclassified)
    (succeeds : document.resolveInheritance = .ok (resolved, repairs)) :
    ∀ model ∈ resolved.models,
      ∀ field, field ∈ model.fields ∨ field ∈ model.fullFields → field.IsUnclassified := by
  have declared : ∀ model ∈ resolved.models, model.DeclaresUnclassified := by
    intro model listed
    rw [models_of_resolveInheritance succeeds, ← InheritanceGraph.map_get_finRange] at listed
    obtain ⟨place, _, rfl⟩ := List.mem_map.mp listed
    rw [Model.DeclaresUnclassified, InheritanceGraph.fields_resolvedMembers]
    exact unclassified _ (InheritanceGraph.get_membersOf_mem place)
  rintro model listed field (isOwn | isMerged)
  · exact declared model listed field isOwn
  · obtain ⟨owner, isModel, _, isOwn, _⟩ :=
      exists_owner_of_resolved owns succeeds listed isMerged
    exact declared owner isModel field isOwn

end Document

/-- In a compiled document the declared and the inherited fields that are primary keys or required
are not nullable, and the primary keys are the fields with an attribute that says so. -/
theorem compile_excludesNull {options : CompilerOptions} {source : Text} {compiled : Compiled}
    (succeeds : compile options source = .ok compiled) :
    ∀ model ∈ compiled.document.models,
      ∀ field, field ∈ model.fields ∨ field ∈ model.fullFields → field.ExcludesNull := by
  obtain ⟨document, _, resolved, _, isRead, isResolved, isClassified⟩ :=
    classified_of_compile succeeds
  have unclassified := Document.isUnclassified_of_resolved (Document.ownsFields_of_read isRead)
    (Document.declaresUnclassified_of_read isRead) isResolved
  rw [isClassified, Registry.models_classifyDocument]
  intro classified listed changed has
  obtain ⟨model, isModel, rfl⟩ := List.mem_map.mp listed
  have isField : ∃ field, (field ∈ model.fields ∨ field ∈ model.fullFields) ∧
      (Registry.standard.classifyField field).1 = changed := by
    rcases has with isOwn | isMerged
    · obtain ⟨field, isOwn, same⟩ := List.mem_map.mp isOwn
      exact ⟨field, .inl isOwn, same⟩
    · obtain ⟨field, isMerged, same⟩ := List.mem_map.mp isMerged
      exact ⟨field, .inr isMerged, same⟩
  obtain ⟨field, isField, rfl⟩ := isField
  exact Registry.excludesNull_classifyField (unclassified model isModel field isField)

/-- Keys and required fields that are declared nullable in every form, before and behind their
attributes, and one that is inherited. -/
def nullableKeys : Text :=
  "## Entity ::interface
- id: guid? @primary
## Order : Entity
- number: integer(9)? [KEY]
  - nullable: yes
- note
  - [required]
  - nullable: true
  - type: text?
- tag: string?".toList

/-- No key and no required field is left nullable. The last field is neither. -/
theorem nullableKeys_excludesNull :
    ∃ compiled, compile {} nullableKeys = .ok compiled ∧
      (compiled.document.models.map fun model => model.fullFields.map fun field =>
        (field.name, field.flags.toList, field.nullable)) =
          [[("id", [.primaryKey], false)],
           [("id", [.primaryKey], false), ("number", [.primaryKey], false),
            ("note", [.required], false), ("tag", [], true)]] ∧
      ∀ model ∈ compiled.document.models,
        ∀ field, field ∈ model.fields ∨ field ∈ model.fullFields → field.ExcludesNull := by
  have declared : (compile {} nullableKeys).map (fun compiled =>
      compiled.document.models.map fun model => model.fullFields.map fun field =>
        (field.name, field.flags.toList, field.nullable)) =
          .ok [[("id", [.primaryKey], false)],
            [("id", [.primaryKey], false), ("number", [.primaryKey], false),
             ("note", [.required], false), ("tag", [], true)]] := by
    decide +kernel
  obtain ⟨compiled, succeeds, shown⟩ := map_eq_ok_iff.mp declared
  exact ⟨compiled, succeeds, shown, compile_excludesNull succeeds⟩

end SchemaMarkup
