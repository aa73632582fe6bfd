import SchemaMarkup.Schema.Entity

/-!
# Documents

A document lists its entities in the order in which they were declared, and no two
of them have the same name. That invariant is part of the type, so a document can
only be changed by operations that keep it: `Document.insert` puts an entity in,
and `Document.mapModels` changes models without renaming them.

A name is looked up twice, as it is written and then without regard to case.
-/

namespace SchemaMarkup

/-- The first item of a name: as it is written, or else in any case. -/
def findNamed? {Item : Type} (nameOf : Item -> String) (items : List Item) (name : String) :
    Option Item :=
  (items.find? fun item => nameOf item == name).or
    (items.find? fun item => equalIgnoringCase (nameOf item) name)

/-- The entities of one source. -/
structure Document where
  dialect : Dialect
  /-- What the title line of the source names. -/
  namespaceName : Option String := none
  /-- The entities in the order of their declaration. -/
  entities : List Entity := []
  /-- No two entities have the same name. -/
  distinctNames : (entities.map Entity.name).Nodup := by simp
deriving DecidableEq

namespace Document

/-- A document without entities. -/
def empty (dialect : Dialect) (namespaceName : Option String) : Document :=
  { dialect, namespaceName }

@[simp] theorem entities_empty (dialect : Dialect) (namespaceName : Option String) :
    (empty dialect namespaceName).entities = [] := rfl

/-- Putting an entity in the place of its namesake changes no name. -/
theorem map_name_replace (entities : List Entity) (entity : Entity) :
    (entities.map fun other => if other.name = entity.name then entity else other).map Entity.name =
      entities.map Entity.name := by
  rw [List.map_map]
  apply List.map_congr_left
  intro other _
  simp only [Function.comp_apply]
  split
  · next same => exact same.symm
  · rfl

/-- A change to models that renames none changes no name. -/
theorem map_name_mapModel {change : Model -> Model}
    (keepsName : forall model, (change model).name = model.name) (entities : List Entity) :
    (entities.map (Entity.mapModel change)).map Entity.name = entities.map Entity.name := by
  rw [List.map_map]
  exact List.map_congr_left fun entity _ => Entity.name_mapModel keepsName entity

/-- The document with one more entity. An entity of the same name gives up its place. -/
def insert (document : Document) (entity : Entity) : Document :=
  if taken : entity.name ∈ document.entities.map Entity.name then
    { document with
      entities := document.entities.map fun other =>
        if other.name = entity.name then entity else other
      distinctNames := by rw [map_name_replace]; exact document.distinctNames }
  else
    { document with
      entities := document.entities ++ [entity]
      distinctNames := by
        rw [List.map_append, List.nodup_append]
        refine ⟨document.distinctNames, by simp, ?_⟩
        intro name listed other isNew same
        simp only [List.map_cons, List.map_nil, List.mem_singleton] at isNew
        exact taken (isNew ▸ same ▸ listed) }

/-- The document with a change to all its models and interfaces that renames none. -/
def mapModels (document : Document) (change : Model -> Model)
    (keepsName : forall model, (change model).name = model.name := by intros; rfl) : Document :=
  { document with
    entities := document.entities.map (Entity.mapModel change)
    distinctNames := by
      rw [map_name_mapModel keepsName]
      exact document.distinctNames }

/-- The entity of exactly this name. -/
def find? (document : Document) (name : String) : Option Entity :=
  document.entities.find? fun entity => entity.name == name

/-- The entity of this name, or else the first one whose name differs only in case. -/
def lookup? (document : Document) (name : String) : Option Entity :=
  findNamed? Entity.name document.entities name

/-- The model or interface of exactly this name. -/
def model? (document : Document) (name : String) : Option Model :=
  (document.find? name).bind Entity.model?

/-- The enumeration of exactly this name. -/
def enumeration? (document : Document) (name : String) : Option Enumeration :=
  (document.find? name).bind Entity.enumeration?

/-- The models and interfaces in the order of their declaration. -/
def models (document : Document) : List Model :=
  document.entities.filterMap Entity.model?

/-- The enumerations in the order of their declaration. -/
def enumerations (document : Document) : List Enumeration :=
  document.entities.filterMap Entity.enumeration?

/-- The models and interfaces of one kind. -/
def modelsOfKind (document : Document) (kind : ModelKind) : List Model :=
  document.models.filter fun model => model.kind == kind

/-- The first model or interface that is marked as the default one. -/
def default? (document : Document) : Option Model :=
  document.models.find? Model.isDefault

/-- The names of the entities in the order of their declaration. -/
def names (document : Document) : List String :=
  document.entities.map Entity.name

/-- The document with a change to the model or interface of exactly this name. -/
def mapModel (document : Document) (name : String) (change : Model -> Model)
    (keepsName : forall model, (change model).name = model.name := by intros; rfl) : Document :=
  document.mapModels (fun model => if model.name == name then change model else model) (by
    intro model
    split
    · exact keepsName model
    · rfl)

/-- One line on every entity. -/
def summary (document : Document) : List String :=
  document.entities.map Entity.summary

end Document

end SchemaMarkup
