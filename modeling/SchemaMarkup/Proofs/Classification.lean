import SchemaMarkup.Classification.Registry
import SchemaMarkup.Proofs.Reading.DeclaredFields
import SchemaMarkup.Proofs.Reading.ForeignKeys

/-!
# Classified fields

What one attribute can do to a field is told once, by `Handler.Changes`: it sets flags and the
values that attributes name, and one handler alone tells foreign keys and their targets. So a field
that is classified is still the field that was declared (`Registry.sameOrigin_classifyField`), and
if no attribute marks it as a foreign key, it stays what its name made of it
(`Registry.sameTarget_classifyField`).
-/

namespace SchemaMarkup

namespace Field

/-- The field with what attributes set in another one. -/
def withClassification (field other : Field) : Field :=
  { field with
    nullable := other.nullable
    flags := other.flags
    referenceTarget := other.referenceTarget
    maxLength := other.maxLength
    columnType := other.columnType
    insertExpression := other.insertExpression
    updateExpression := other.updateExpression
    unrecognizedAttributes := other.unrecognizedAttributes }

/-- Two states of one field that differ in nothing but what attributes set. -/
def ClassifiesTo (field other : Field) : Prop :=
  other = field.withClassification other

theorem ClassifiesTo.refl (field : Field) : field.ClassifiesTo field := rfl

theorem ClassifiesTo.trans {first second third : Field} (before : first.ClassifiesTo second)
    (after : second.ClassifiesTo third) : first.ClassifiesTo third := by
  rw [ClassifiesTo, after, before]
  rfl

/-- Two states of one field: it has stayed a foreign key, or none, to the same target. -/
structure SameTarget (field other : Field) : Prop where
  foreignKey : other.flags.foreignKey = field.flags.foreignKey
  referenceTarget : other.referenceTarget = field.referenceTarget

theorem SameTarget.refl (field : Field) : field.SameTarget field :=
  ⟨rfl, rfl⟩

theorem SameTarget.trans {first second third : Field} (before : first.SameTarget second)
    (after : second.SameTarget third) : first.SameTarget third :=
  ⟨after.foreignKey.trans before.foreignKey, after.referenceTarget.trans before.referenceTarget⟩

end Field

/-- What each handler makes of a field when it accepts the arguments of an attribute. -/
inductive Handler.Changes (field : Field) : Handler → Field → Prop where
  | primaryKey : Changes field .primaryKey
      { field with flags := field.flags.add .primaryKey, nullable := false }
  | required : Changes field .required
      { field with flags := field.flags.add .required, nullable := false }
  | unique : Changes field .unique { field with flags := field.flags.add .unique }
  | indexed : Changes field .indexed { field with flags := field.flags.add .indexed }
  | excluded : Changes field .excluded { field with flags := field.flags.add .excluded }
  | jsonIgnored : Changes field .jsonIgnored { field with flags := field.flags.add .jsonIgnored }
  | foreignKey (target : Option String) : Changes field .foreignKey
      { field with flags := field.flags.add .foreignKey, referenceTarget := target }
  | maxLength (length : UInt32) : Changes field .maxLength { field with maxLength := some length }
  | columnType (type : String) : Changes field .columnType { field with columnType := some type }
  | insertExpression (text : String) : Changes field (.expression .insert)
      { field with insertExpression := some text }
  | updateExpression (text : String) : Changes field (.expression .update)
      { field with updateExpression := some text }

/-- A handler that accepts an attribute makes its own change. -/
theorem Handler.changes_apply {handler : Handler} {field changed : Field} {call : Attribute}
    (run : handler.apply field call = .ok changed) : handler.Changes field changed := by
  cases handler with
  | primaryKey => exact Except.ok.inj run ▸ .primaryKey
  | required => exact Except.ok.inj run ▸ .required
  | unique => exact Except.ok.inj run ▸ .unique
  | indexed => exact Except.ok.inj run ▸ .indexed
  | excluded => exact Except.ok.inj run ▸ .excluded
  | jsonIgnored => exact Except.ok.inj run ▸ .jsonIgnored
  | foreignKey =>
      simp only [apply, Field.applyForeignKey] at run
      split at run
      · split at run
        · contradiction
        · exact Except.ok.inj run ▸ .foreignKey _
      · exact Except.ok.inj run ▸ .foreignKey field.referenceTarget
  | maxLength =>
      simp only [apply, Field.applyMaxLength] at run
      split at run
      · contradiction
      · split at run
        · split at run
          · contradiction
          · exact Except.ok.inj run ▸ .maxLength _
        · contradiction
  | columnType =>
      simp only [apply, Field.applyColumnType] at run
      split at run
      · split at run
        · contradiction
        · exact Except.ok.inj run ▸ .columnType _
      · contradiction
  | expression trigger =>
      simp only [apply, Field.applyExpression] at run
      split at run
      · contradiction
      · exact Except.ok.inj run ▸ .insertExpression _
      · exact Except.ok.inj run ▸ .updateExpression _

/-- A handler changes flags and the values that attributes set, and nothing else of a field. Only
the one for foreign keys tells whether the field is one, and to what. -/
theorem Handler.apply_changes {handler : Handler} {field changed : Field} {call : Attribute}
    (run : handler.apply field call = .ok changed) :
    field.ClassifiesTo changed ∧ (handler ≠ .foreignKey → field.SameTarget changed) := by
  cases Handler.changes_apply run with
  | foreignKey target => exact ⟨rfl, fun isOther => absurd rfl isOther⟩
  | _ => exact ⟨rfl, fun _ => ⟨rfl, rfl⟩⟩

namespace Registry

variable (registry : Registry)

/-- An attribute is applied or left to generators. -/
theorem classifiesTo_step (progress : Progress) (call : Attribute) :
    progress.field.ClassifiesTo (registry.step progress call).field := by
  rw [step]
  split
  · exact .refl _
  · split
    · next applied => exact (Handler.apply_changes applied).1
    · exact .refl _

/-- Classification sets what attributes set, and nothing else. -/
theorem classifiesTo_classifyField (field : Field) :
    field.ClassifiesTo (registry.classifyField field).1 := by
  have applied : field.ClassifiesTo (field.attributes.foldl registry.step { field }).field :=
    List.foldlRecOn (motive := fun progress => field.ClassifiesTo progress.field)
      field.attributes registry.step (.refl field)
      fun progress kept call _ => kept.trans (registry.classifiesTo_step progress call)
  exact applied.trans rfl

/-- Classification renames no field. -/
theorem sameOrigin_classifyField (field : Field) :
    field.SameOrigin (registry.classifyField field).1 := by
  rw [registry.classifiesTo_classifyField field]
  exact ⟨rfl, rfl⟩

/-- Classification moves no field. -/
theorem location_classifyField (field : Field) :
    (registry.classifyField field).1.location = field.location := by
  rw [registry.classifiesTo_classifyField field]
  rfl

/-! ## Foreign keys -/

variable {registry}

/-- The handler of foreign keys answers to the names that mark a field as one. -/
theorem handlerFor?_ne_foreignKey {name : String}
    (unmarked : ∀ mark ∈ foreignKeyNames, equalIgnoringCase name mark = false) :
    registry.handlerFor? name ≠ some .foreignKey := by
  intro isHandler
  have answers := List.find?_some isHandler
  obtain ⟨mark, isMark, alike⟩ := List.any_eq_true.mp answers
  rw [equalIgnoringCase_iff] at alike
  have marked : equalIgnoringCase name mark = true := equalIgnoringCase_iff.mpr alike.symm
  rw [unmarked mark isMark] at marked
  contradiction

theorem sameTarget_step (progress : Progress) {call : Attribute}
    (unmarked : ∀ mark ∈ foreignKeyNames, equalIgnoringCase call.name mark = false) :
    progress.field.SameTarget (registry.step progress call).field := by
  rw [step]
  split
  · exact .refl _
  · next handler isHandler =>
      have isOther : handler ≠ .foreignKey := fun same =>
        handlerFor?_ne_foreignKey unmarked (same ▸ isHandler)
      split
      · next applied => exact (Handler.apply_changes applied).2 isOther
      · exact .refl _

/-- Classification leaves a field that no attribute marks as a foreign key to its target. -/
theorem sameTarget_classifyField {field : Field} (unmarked : field.hasExplicitForeignKey = false) :
    field.SameTarget (registry.classifyField field).1 := by
  rw [Document.hasExplicitForeignKey_eq_false_iff] at unmarked
  have kept : field.SameTarget (field.attributes.foldl registry.step { field }).field :=
    List.foldlRecOn (motive := fun progress => field.SameTarget progress.field)
      field.attributes registry.step (.refl field)
      fun progress kept call listed => kept.trans (sameTarget_step progress (unmarked call listed))
  exact ⟨kept.foreignKey, kept.referenceTarget⟩

/-! ## Documents -/

variable (registry) (document : Document)

theorem name_classifyModel (model : Model) : (registry.classifyModel model).name = model.name :=
  rfl

/-- Classification goes through the models one by one. -/
theorem models_classifyDocument :
    (registry.classifyDocument document).1.models = document.models.map registry.classifyModel :=
  document.models_mapModels registry.classifyModel registry.name_classifyModel

end Registry

/-- Classification leaves the declared fields where they belong. -/
theorem Document.OwnsFields.classifyDocument {document : Document} (owns : document.OwnsFields)
    (registry : Registry) : (registry.classifyDocument document).1.OwnsFields :=
  owns.mapModels registry.name_classifyModel (fun _ => rfl) registry.sameOrigin_classifyField

end SchemaMarkup
