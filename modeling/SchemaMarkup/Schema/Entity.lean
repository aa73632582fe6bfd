import SchemaMarkup.Schema.Constraint
import SchemaMarkup.Schema.Field

/-!
# Entities

A document declares models, interfaces and enumerations. Models and interfaces
have the same parts and take part in inheritance; their kind decides what they may
inherit from. The parts that resolution fills in, `resolvedParents` and
`fullFields`, are empty in an entity that was only read.
-/

namespace SchemaMarkup

/-- A model or an interface. -/
structure Model where
  name : String
  label : Option String := none
  description : Option String := none
  kind : ModelKind := .model
  isAbstract : Bool := false
  /-- The default entity is the parent of every model that has no model as a parent. -/
  isDefault : Bool := false
  /-- The parents that the header names. -/
  inherits : List String := []
  /-- The names of the parents that are left once inheritance is resolved. -/
  resolvedParents : List String := []
  /-- The fields that the entity declares. -/
  fields : List Field := []
  /-- The declared and the inherited fields, once inheritance is resolved. -/
  fullFields : List Field := []
  relations : List Relation := []
  indexes : List Index := []
  attributes : List Attribute := []
  metadata : Metadata := {}
  location : Location := .unknown
deriving DecidableEq, Repr

namespace Model

/-- Whether the entity is an interface. -/
def isInterface (model : Model) : Bool :=
  model.kind == .interface

/-- The declared field of a name. -/
def field? (model : Model) (name : String) : Option Field :=
  model.fields.find? fun field => field.name == name

/-- The declared or inherited field of a name. -/
def fullField? (model : Model) (name : String) : Option Field :=
  model.fullFields.find? fun field => field.name == name

/-- The declared and inherited fields that are part of the primary key. -/
def primaryKeys (model : Model) : List Field :=
  model.fullFields.filter fun field => field.flags.primaryKey

end Model

/-- A block of named values. -/
structure Enumeration where
  name : String
  label : Option String := none
  description : Option String := none
  values : List EnumValue := []
  attributes : List Attribute := []
  location : Location := .unknown
deriving DecidableEq, Repr

/-- What one block of a document declares. -/
inductive Entity where
  | model (model : Model)
  | enumeration (enumeration : Enumeration)
deriving DecidableEq, Repr

namespace Entity

/-- The name of the entity. -/
def name : Entity -> String
  | .model contents => contents.name
  | .enumeration contents => contents.name

/-- The kind of the entity. -/
def kind : Entity -> EntityKind
  | .model contents => contents.kind.entityKind
  | .enumeration _ => .enumeration

/-- The header line of the entity. -/
def location : Entity -> Location
  | .model contents => contents.location
  | .enumeration contents => contents.location

/-- The model or interface that the entity is. -/
def model? : Entity -> Option Model
  | .model contents => some contents
  | .enumeration _ => none

/-- The enumeration that the entity is. -/
def enumeration? : Entity -> Option Enumeration
  | .model _ => none
  | .enumeration contents => some contents

/-- An entity with no parts but its name and kind. -/
def empty (kind : EntityKind) (name : String) : Entity :=
  match kind with
  | .model => .model { name, kind := .model }
  | .interface => .model { name, kind := .interface }
  | .enumeration => .enumeration { name }

/-- The entity with a change to the model or interface that it is. -/
def mapModel (change : Model -> Model) : Entity -> Entity
  | .model contents => .model (change contents)
  | .enumeration contents => .enumeration contents

/-- A change that keeps the names of models keeps the name of the entity. -/
theorem name_mapModel {change : Model -> Model}
    (keepsName : forall model, (change model).name = model.name) (entity : Entity) :
    (entity.mapModel change).name = entity.name := by
  cases entity
  · exact keepsName _
  · rfl

/-- One line on the entity: its kind, its name and how much it holds. -/
def summary : Entity -> String
  | .model contents =>
      let counted := s!"{contents.kind.entityKind.name} {contents.name}: {contents.fullFields.length} fields"
      if contents.resolvedParents.isEmpty then
        counted
      else
        let parents := ", ".intercalate contents.resolvedParents
        s!"{counted} (inherits {parents})"
  | .enumeration contents =>
      s!"enum {contents.name}: {contents.values.length} values"

end Entity

end SchemaMarkup
