import SchemaMarkup.Diagnostic.Basic
import SchemaMarkup.Schema.Document

/-!
# Validation of references

A resolved document may still name entities and fields that are not there. Each
such reference is a warning, because the document stays usable without it.
Inherited fields are not checked again.
-/

namespace SchemaMarkup

/-- A check on the references of one kind. -/
inductive Validator where
  /-- Relations have to lead to models or interfaces. -/
  | relationTarget
  /-- Indexes have to be over declared or inherited fields. -/
  | indexField
  /-- Foreign keys with a target have to lead to models. -/
  | foreignKeyTarget
deriving DecidableEq, Repr

namespace Validator

/-- Every check, in the order in which they run. -/
def standard : List Validator :=
  [.relationTarget, .indexField, .foreignKeyTarget]

end Validator

namespace Document

/-- Whether a name leads to a model or an interface. -/
def namesModelOrInterface (document : Document) (name : String) : Bool :=
  ((document.lookup? name).bind Entity.model?).isSome

/-- Whether a name leads to a model. -/
def namesModel (document : Document) (name : String) : Bool :=
  (document.lookup? name).any fun entity => entity.kind == .model

/-- The warnings on the relations of a model. -/
def checkRelations (document : Document) (model : Model) : List Diagnostic :=
  (model.relations.filter fun relation => !document.namesModelOrInterface relation.target).map
    fun relation => .unknownRelationTarget model.name relation.target relation.location

/-- The warnings on the foreign keys that a model declares. -/
def checkForeignKeys (document : Document) (model : Model) : List Diagnostic :=
  (model.fields.filter fun field => field.flags.foreignKey).filterMap fun field =>
    (field.referenceTarget.filter fun target => !document.namesModel target).map fun target =>
      .unknownForeignKeyTarget s!"{model.name}.{field.name}" target field.location

end Document

/-- The warnings on the indexes of a model. -/
def Model.checkIndexes (model : Model) : List Diagnostic :=
  model.indexes.flatMap fun index =>
    (index.fields.filter fun field => (model.fullField? field).isNone).map fun field =>
      .unknownIndexField model.name index.name field index.location

namespace Validator

/-- The warnings of one check on a document. -/
def check (validator : Validator) (document : Document) : List Diagnostic :=
  document.models.flatMap fun model =>
    match validator with
    | .relationTarget => document.checkRelations model
    | .indexField => model.checkIndexes
    | .foreignKeyTarget => document.checkForeignKeys model

/-- The warnings of several checks on a document. -/
def checkAll (validators : List Validator) (document : Document) : List Diagnostic :=
  validators.flatMap fun validator => validator.check document

end Validator

end SchemaMarkup
