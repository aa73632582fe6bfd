import SchemaMarkup.Classification.Handler
import SchemaMarkup.Diagnostic.Basic
import SchemaMarkup.Schema.Document

/-!
# Classification of fields

A registry is a list of handlers, of which a later one takes over the names it
shares with an earlier one. Classification applies the attributes of a field in
order, those in square brackets first. An attribute that no handler answers to, or
whose arguments are rejected, is left to generators as it stands; a rejection is
also a warning.
-/

namespace SchemaMarkup

/-- The handlers in use, in the order of their registration. -/
structure Registry where
  handlers : List Handler
deriving DecidableEq, Repr

namespace Registry

/-- The registry of every handler. -/
def standard : Registry where
  handlers :=
    [.primaryKey, .foreignKey, .unique, .indexed, .maxLength, .columnType, .required,
     .expression .insert, .expression .update, .excluded, .jsonIgnored]

/-- The handler of a name: the last one registered that answers to it. -/
def handlerFor? (registry : Registry) (name : String) : Option Handler :=
  registry.handlers.reverse.find? fun handler => handler.answersTo name

/-- A field of which some attributes have been applied. -/
structure Progress where
  field : Field
  unrecognized : List Attribute := []
  warnings : List Diagnostic := []

/-- Applies one more attribute. -/
def step (registry : Registry) (progress : Progress) (call : Attribute) : Progress :=
  match registry.handlerFor? call.name with
  | none => { progress with unrecognized := progress.unrecognized ++ [call] }
  | some handler =>
      match handler.apply progress.field call with
      | .ok field => { progress with field }
      | .error rejection =>
          let warning := Diagnostic.invalidAttributeArguments call.raw rejection.message
            progress.field.location
          { progress with
            unrecognized := progress.unrecognized ++ [call]
            warnings := progress.warnings ++ [warning] }

/-- Classifies a field, with a warning for each attribute whose arguments are rejected. -/
def classifyField (registry : Registry) (field : Field) : Field × List Diagnostic :=
  let progress := field.attributes.foldl registry.step { field }
  ({ progress.field with unrecognizedAttributes := progress.unrecognized }, progress.warnings)

/-- The model with its declared and its inherited fields classified. -/
def classifyModel (registry : Registry) (model : Model) : Model :=
  { model with
    fields := model.fields.map fun field => (registry.classifyField field).1
    fullFields := model.fullFields.map fun field => (registry.classifyField field).1 }

/-- The document with every field classified. Only declared fields give warnings, since an
inherited one would give them again. -/
def classifyDocument (registry : Registry) (document : Document) : Document × List Diagnostic :=
  (document.mapModels registry.classifyModel,
    document.models.flatMap fun model =>
      model.fields.flatMap fun field => (registry.classifyField field).2)

end Registry

end SchemaMarkup
