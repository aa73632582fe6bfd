import SchemaMarkup.Schema.Document

/-!
# Foreign keys by name

A field that is named like a reference, `Owner_id` say, is a foreign key if the
part before the suffix names a model of the document. Fields whose attributes say
that they are foreign keys are left alone, and so are names that start with `_`.
-/

namespace SchemaMarkup

/-- The part of a name before a suffix that it ends with in any case, unless that part is empty. -/
def beforeSuffixIgnoringCase? (name suffix : String) : Option String :=
  let size := name.toList.length - suffix.toList.length
  let front := name.toList.take size
  let ending : Text := name.toList.drop size
  if !front.isEmpty && ending.spells suffix then some (String.ofList front) else none

/-- The part of a name before a suffix that it ends with, unless that part is empty. -/
def beforeSuffix? (name suffix : String) : Option String :=
  let size := name.toList.length - suffix.toList.length
  let front := name.toList.take size
  if !front.isEmpty && name.toList.drop size == suffix.toList then some (String.ofList front)
  else none

namespace Dialect

/-- The part before the suffix of a field that is named like a reference: `_id` and `_key` in
any case, and in the legacy dialect also `Id` and `Key`. -/
def foreignKeyPrefix? (dialect : Dialect) (name : String) : Option String :=
  let underscored :=
    (beforeSuffixIgnoringCase? name "_id").or (beforeSuffixIgnoringCase? name "_key")
  match dialect with
  | .current => underscored
  | .legacy => underscored.or ((beforeSuffix? name "Id").or (beforeSuffix? name "Key"))

end Dialect

/-- The model that a field refers to by its name alone. -/
def Document.inferredTarget? (document : Document) (field : Field) : Option String :=
  if field.name.toList.head? == some '_' || field.hasExplicitForeignKey then
    none
  else
    (document.dialect.foreignKeyPrefix? field.name).bind fun name =>
      (findNamed? Model.name (document.modelsOfKind .model) name).map Model.name

/-- The field as a foreign key, if it refers to a model by its name alone. -/
def Document.inferForeignKey (document : Document) (field : Field) : Field :=
  match document.inferredTarget? field with
  | some target => { field with
      flags := field.flags.add .foreignKey
      referenceTarget := some target }
  | none => field

/-- The document with every foreign key that the names of fields tell. -/
def Document.inferForeignKeys (document : Document) : Document :=
  document.mapModels fun model =>
    { model with fields := model.fields.map document.inferForeignKey }

end SchemaMarkup
