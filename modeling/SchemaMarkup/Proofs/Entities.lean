import Mathlib.Data.List.Nodup
import SchemaMarkup.Schema.Document

/-!
# Entities of a document

A document is seen as its list of entities or, leaving the enumerations out, as its list of
models and interfaces. These lemmas say what the operations that build and change documents
do to the two lists, and that a name tells an entity.
-/

namespace SchemaMarkup

/-- Where no two items have the same name, an item is found by its name and by no other. -/
theorem find?_named_eq_some_iff {Item : Type} {nameOf : Item → String} {items : List Item}
    (distinct : (items.map nameOf).Nodup) {name : String} {item : Item} :
    (items.find? fun other => nameOf other == name) = some item ↔
      item ∈ items ∧ nameOf item = name := by
  constructor
  · intro found
    exact ⟨List.mem_of_find?_eq_some found, by simpa using List.find?_some found⟩
  · rintro ⟨listed, rfl⟩
    cases found : items.find? fun other => nameOf other == nameOf item with
    | none => exact absurd (beq_self_eq_true _) (List.find?_eq_none.mp found item listed)
    | some other =>
        have same : nameOf other = nameOf item := by simpa using List.find?_some found
        rw [List.inj_on_of_nodup_map distinct (List.mem_of_find?_eq_some found) listed same]

namespace Document

/-- Two documents are the same if they list the same entities. -/
theorem ext_entities {first second : Document} (dialect : first.dialect = second.dialect)
    (namespaceName : first.namespaceName = second.namespaceName)
    (entities : first.entities = second.entities) : first = second := by
  cases first
  cases second
  simp_all

/-- The models keep the order and the names of their entities. -/
theorem sublist_names_models (document : Document) :
    (document.models.map Model.name).Sublist document.names := by
  rw [models, names]
  induction document.entities with
  | nil => exact .refl _
  | cons entity rest inductionHypothesis =>
      cases entity with
      | model contents => exact inductionHypothesis.cons_cons _
      | enumeration contents => exact inductionHypothesis.cons _

/-- No two models have the same name. -/
theorem nodup_names_models (document : Document) : (document.models.map Model.name).Nodup :=
  document.distinctNames.sublist document.sublist_names_models

/-- The models of a document are those among its entities. -/
theorem mem_models_iff {document : Document} {model : Model} :
    model ∈ document.models ↔ Entity.model model ∈ document.entities := by
  rw [models, List.mem_filterMap]
  constructor
  · rintro ⟨entity, declared, isModel⟩
    cases entity with
    | enumeration contents => contradiction
    | model contents => exact Option.some.inj isModel ▸ declared
  · exact fun declared => ⟨_, declared, rfl⟩

/-- An entity is found by its name and by no other. -/
theorem find?_eq_some_iff {document : Document} {name : String} {entity : Entity} :
    document.find? name = some entity ↔ entity ∈ document.entities ∧ entity.name = name :=
  find?_named_eq_some_iff document.distinctNames

/-- A model is found by its name. -/
theorem model?_name {document : Document} {model : Model} (listed : model ∈ document.models) :
    document.model? model.name = some model := by
  have found : document.find? model.name = some (.model model) :=
    find?_eq_some_iff.mpr ⟨mem_models_iff.mp listed, rfl⟩
  rw [model?, found]
  rfl

/-- Changing the models changes each of them. -/
theorem models_mapModels (document : Document) (change : Model → Model)
    (keepsName : ∀ model, (change model).name = model.name) :
    (document.mapModels change keepsName).models = document.models.map change := by
  rw [models, models, mapModels, List.filterMap_map, List.map_filterMap]
  congr 1
  funext entity
  cases entity <;> rfl

/-- Changing the models leaves the enumerations alone. -/
theorem enumeration_mem_mapModels {document : Document} {change : Model → Model}
    (keepsName : ∀ model, (change model).name = model.name) {contents : Enumeration} :
    Entity.enumeration contents ∈ (document.mapModels change keepsName).entities ↔
      Entity.enumeration contents ∈ document.entities := by
  rw [mapModels, List.mem_map]
  constructor
  · rintro ⟨entity, declared, isEnumeration⟩
    cases entity with
    | model contents => contradiction
    | enumeration contents => exact isEnumeration ▸ declared
  · exact fun declared => ⟨_, declared, rfl⟩

/-- A change to models changes the document if it changes one of the models. -/
theorem mapModels_eq_self_iff {document : Document} {change : Model → Model}
    (keepsName : ∀ model, (change model).name = model.name) :
    document.mapModels change keepsName = document ↔
      document.models.map change = document.models := by
  constructor
  · intro same
    rw [← models_mapModels document change keepsName, same]
  · intro same
    have each : ∀ model ∈ document.models, change model = model := by
      rw [← List.map_id document.models, List.map_map] at same
      exact List.map_inj_left.mp same
    have entities : document.entities.map (Entity.mapModel change) = document.entities := by
      conv_rhs => rw [← List.map_id document.entities]
      refine List.map_congr_left fun entity declared => ?_
      cases entity with
      | enumeration contents => rfl
      | model contents =>
          have fixed := each contents (List.mem_filterMap.mpr ⟨_, declared, rfl⟩)
          rw [Entity.mapModel, fixed]
          rfl
    obtain ⟨dialect, namespaceName, entities, distinctNames⟩ := document
    simpa [mapModels] using entities

/-- A document holds the entity that was put in, and else only what it held before. -/
theorem mem_entities_insert {document : Document} {entity other : Entity}
    (listed : other ∈ (document.insert entity).entities) :
    other = entity ∨ other ∈ document.entities := by
  rw [insert] at listed
  split at listed
  · obtain ⟨before, declared, rfl⟩ := List.mem_map.mp listed
    split
    · exact .inl rfl
    · exact .inr declared
  · simpa [or_comm] using listed

@[simp] theorem dialect_insert (document : Document) (entity : Entity) :
    (document.insert entity).dialect = document.dialect := by
  rw [insert]
  split <;> rfl

@[simp] theorem namespaceName_insert (document : Document) (entity : Entity) :
    (document.insert entity).namespaceName = document.namespaceName := by
  rw [insert]
  split <;> rfl

/-- An entity of a new name is put in behind the others. -/
theorem entities_insert_of_new {document : Document} {entity : Entity}
    (isNew : entity.name ∉ document.names) :
    (document.insert entity).entities = document.entities ++ [entity] := by
  rw [insert, dif_neg (by exact isNew)]

end Document

end SchemaMarkup
