import SchemaMarkup.Proofs.Inheritance.ResolvedDocument

/-!
# Names of parents

Two parties look up the names that a document inherits from. The document looks among all its
entities, the graph among the models and interfaces only, and it asks the document no more
than what kind of entity a name belongs to that no model answers to. `parentNamed?` says what
comes of it in terms of the document alone. The two part ways at one kind of name only: the
document finds an enumeration, and some model is called the same in another case. That model
is then the parent, and the enumeration goes unnoticed.

`build_byLookup` says for every document whether its graph is built, with which parents, and
what the fault is if it is not.
-/

namespace SchemaMarkup

namespace Document

/-- The model that a name leads to: the one that the document finds, or else, where it finds
an enumeration, the first one that is called the same in any case. -/
def parentNamed? (document : Document) (name : String) : Option Model :=
  match document.lookup? name with
  | some (.model parent) => some parent
  | some (.enumeration _) => document.models.find? fun model => equalIgnoringCase model.name name
  | none => none

/-! ## Lookup among models and among entities -/

/-- A model is looked up by its exact name among the models as among all entities. -/
theorem find?_models (document : Document) (name : String) :
    (document.models.find? fun model => model.name == name) = document.model? name := by
  apply Option.ext
  intro model
  rw [find?_named_eq_some_iff document.nodup_names_models, model?, Option.bind_eq_some_iff]
  constructor
  · rintro ⟨listed, rfl⟩
    exact ⟨.model model, find?_eq_some_iff.mpr ⟨mem_models_iff.mp listed, rfl⟩, rfl⟩
  · rintro ⟨entity, found, isModel⟩
    obtain ⟨listed, rfl⟩ := find?_eq_some_iff.mp found
    cases entity with
    | enumeration contents => contradiction
    | model contents =>
        obtain rfl : contents = model := Option.some.inj isModel
        exact ⟨mem_models_iff.mpr listed, rfl⟩

/-- The first entity that passes a test on names is also the first model, if it is one. -/
theorem find?_models_of_entity {document : Document} (test : String → Bool) {model : Model}
    (first : (document.entities.find? fun entity => test entity.name) = some (.model model)) :
    (document.models.find? fun other => test other.name) = some model := by
  obtain ⟨passes, before, after, isSplit, failing⟩ := List.find?_eq_some_iff_append.mp first
  refine List.find?_eq_some_iff_append.mpr
    ⟨passes, before.filterMap Entity.model?, after.filterMap Entity.model?, ?_, ?_⟩
  · rw [models, isSplit, List.filterMap_append, List.filterMap_cons]
    rfl
  · -- The models before it are among the entities before it.
    intro other listed
    obtain ⟨entity, isBefore, isModel⟩ := List.mem_filterMap.mp listed
    cases entity with
    | enumeration contents => contradiction
    | model contents =>
        obtain rfl : contents = other := Option.some.inj isModel
        exact failing _ isBefore

/-- Where no entity passes a test on names, no model does. -/
theorem find?_models_of_none {document : Document} (test : String → Bool)
    (nothing : (document.entities.find? fun entity => test entity.name) = none) :
    (document.models.find? fun model => test model.name) = none := by
  rw [List.find?_eq_none] at nothing ⊢
  exact fun model listed => nothing (.model model) (mem_models_iff.mp listed)

/-- The name that the builder of graphs looks up leads to the same model. -/
theorem findNamed?_models (document : Document) (name : String) :
    findNamed? Model.name document.models name = document.parentNamed? name := by
  rw [findNamed?, find?_models, model?, find?, parentNamed?, lookup?, findNamed?]
  cases document.entities.find? fun entity => entity.name == name with
  | some entity => cases entity <;> simp [Entity.model?]
  | none =>
      simp only [Option.bind_none, Option.none_or]
      cases inAnyCase : document.entities.find? fun entity =>
          equalIgnoringCase entity.name name with
      | none => exact find?_models_of_none (equalIgnoringCase · name) inAnyCase
      | some entity =>
          cases entity with
          | model contents => exact find?_models_of_entity (equalIgnoringCase · name) inAnyCase
          | enumeration contents => rfl

/-! ## Which names can be inherited -/

/-- A model can inherit from what a name leads to: there is a model of that name, and if an
interface asks for it, it is an interface. -/
def Accepts (document : Document) (model : Model) (name : String) : Prop :=
  ∃ parent, document.parentNamed? name = some parent ∧
    ¬(model.isInterface = true ∧ parent.kind = .model)

/-- What is wrong with a name that a model cannot inherit from. -/
inductive Refuses (document : Document) (model : Model) (name : String) : SchemaError → Prop where
  /-- No entity is called so. -/
  | unknown (missing : document.lookup? name = none) :
      document.Refuses model name (.unknownReference model.name name model.location)
  /-- An enumeration is called so, and no model in any case. -/
  | enumeration {found : Enumeration} (isFound : document.lookup? name = some (.enumeration found))
      (unmatched : ∀ other ∈ document.models, equalIgnoringCase other.name name = false) :
      document.Refuses model name
        (.invalidInheritance (.fromEnumeration model.name name) model.location)
  /-- The model asks as an interface. -/
  | interface {parent : Model} (isFound : document.parentNamed? name = some parent)
      (asks : model.isInterface = true) (isModel : parent.kind = .model) :
      document.Refuses model name
        (.invalidInheritance (.interfaceFromModel model.name parent.name) model.location)

/-- The fault that a document is refused for: a second default entity, or else the first name,
in the order of the models and then of their headers, that cannot be inherited. -/
inductive FirstFault (document : Document) : SchemaError → Prop where
  | secondDefault {first second : Model} {more : List Model}
      (marked : document.models.filter Model.isDefault = first :: second :: more) :
      document.FirstFault (.duplicateDefaultEntity first.name second.name second.location)
  | refusedName {model : Model} {earlier later : List Model} {name : String}
      {before after : List String} {fault : SchemaError}
      (unique : (document.models.filter Model.isDefault).length ≤ 1)
      (models : document.models = earlier ++ model :: later)
      (inherits : model.inherits = before ++ name :: after)
      (acceptsModels : ∀ other ∈ earlier, ∀ name ∈ other.inherits, document.Accepts other name)
      (acceptsNames : ∀ name ∈ before, document.Accepts model name)
      (refuses : document.Refuses model name fault) : document.FirstFault fault

/-- Every name that is inherited is that of a model or interface to the document itself, and
no model if an interface inherits it. -/
def AcceptedByLookup (document : Document) : Prop :=
  (document.models.filter Model.isDefault).length ≤ 1 ∧
    ∀ model ∈ document.models, ∀ name ∈ model.inherits, ∃ parent,
      document.lookup? name = some (.model parent) ∧
        ¬(model.isInterface = true ∧ parent.kind = .model)

end Document

namespace InheritanceGraph

open Document

variable {document : Document}

/-- A name has no fault exactly when it is accepted. -/
theorem parentFault?_eq_none_iff_accepts {model : Model} {name : String} :
    parentFault? document model name = none ↔ document.Accepts model name := by
  rw [parentFault?_eq_none_iff, findNamed?_models]
  rfl

/-- The fault of a name is why it is refused. -/
theorem parentFault?_eq_some_iff {model : Model} {name : String} {fault : SchemaError} :
    parentFault? document model name = some fault ↔ document.Refuses model name fault := by
  constructor
  · intro isFault
    rw [parentFault?] at isFault
    split at isFault
    · next parent found =>
        rw [findNamed?_models] at found
        split at isFault
        · next asked =>
            cases isFault
            simp only [Bool.and_eq_true, beq_iff_eq] at asked
            exact .interface found asked.1 asked.2
        · contradiction
    · next missing =>
        rw [findNamed?_models, parentNamed?] at missing
        cases looked : document.lookup? name with
        | none =>
            simp only [looked, Option.any_none, Bool.false_eq_true, if_false] at isFault
            cases isFault
            exact .unknown looked
        | some entity =>
            cases entity with
            | model parent => simp [looked] at missing
            | enumeration contents =>
                simp only [looked, Option.any_some, Entity.kind, beq_self_eq_true, if_true]
                  at isFault
                cases isFault
                simp only [looked, List.find?_eq_none, Bool.not_eq_true] at missing
                exact .enumeration looked missing
  · intro refuses
    rw [parentFault?, findNamed?_models]
    cases refuses with
    | unknown missing => simp [parentNamed?, missing]
    | enumeration isFound unmatched =>
        have nothing : document.models.find? (fun model => equalIgnoringCase model.name name) =
            none := by
          simpa [List.find?_eq_none] using unmatched
        simp [parentNamed?, isFound, nothing, Entity.kind]
    | interface isFound asks isModel => simp [isFound, asks, isModel]

/-- The fault of the default entities is the second one. -/
theorem defaultFault?_eq_some_iff {models : List Model} {fault : SchemaError} :
    defaultFault? models = some fault ↔ ∃ first second more,
      models.filter Model.isDefault = first :: second :: more ∧
        fault = .duplicateDefaultEntity first.name second.name second.location := by
  rw [defaultFault?]
  split
  · next first second more marked =>
      rw [marked]
      constructor
      · intro isFault
        exact ⟨first, second, more, rfl, (Option.some.inj isFault).symm⟩
      · rintro ⟨_, _, _, same, rfl⟩
        cases same
        rfl
  · next short =>
      simp only [reduceCtorEq, false_iff]
      rintro ⟨first, second, more, marked, _⟩
      exact short first second more marked

/-- What a document is refused for. -/
theorem fault?_eq_some_iff {fault : SchemaError} :
    fault? document = some fault ↔ document.FirstFault fault := by
  rw [fault?, Option.or_eq_some_iff, defaultFault?_eq_some_iff, defaultFault?_eq_none_iff]
  simp only [List.findSome?_eq_some_iff, List.findSome?_eq_none_iff, parentFault?_eq_some_iff,
    parentFault?_eq_none_iff_accepts]
  constructor
  · rintro (⟨first, second, more, marked, rfl⟩ |
      ⟨unique, earlier, model, later, models, ⟨before, name, after, inherits, refuses,
        acceptsNames⟩, acceptsModels⟩)
    · exact .secondDefault marked
    · exact .refusedName unique models inherits acceptsModels acceptsNames refuses
  · rintro (@⟨first, second, more, marked⟩ |
      ⟨unique, models, inherits, acceptsModels, acceptsNames, refuses⟩)
    · exact .inl ⟨first, second, more, marked, rfl⟩
    · exact .inr ⟨unique, _, _, _, models, ⟨_, _, _, inherits, refuses, acceptsNames⟩,
        acceptsModels⟩

/-- The parents in the graph of a document are the models that the names lead to. -/
theorem map_get_parentsOf (document : Document) (member : Fin document.models.length) :
    ((ofMembers (membersOf document)).parentsOf member).map (membersOf document).get =
      (((membersOf document).get member).inherits.filterMap document.parentNamed?).eraseDups := by
  rw [parentsOf_ofMembers, ← eraseDups_map_of_injective document.injective_get_membersOf,
    List.map_filterMap]
  congr 2
  funext name
  rw [← findNamed?_models]
  exact (findNamed?_toList (membersOf document) name).symm

/-- What comes of building the graph of a document, as its own lookup tells it. -/
structure BuildsByLookup (document : Document) : Prop where
  /-- The graph is built from at most one default entity and names that are all accepted. -/
  built : (∃ graph, build document = .ok graph) ↔
    (document.models.filter Model.isDefault).length ≤ 1 ∧
      ∀ model ∈ document.models, ∀ name ∈ model.inherits, document.Accepts model name
  /-- The members are the models, and their parents are the models that the inherited names
  lead to, in order and each once. -/
  parents : ∀ graph, build document = .ok graph → graph.members = membersOf document ∧
    ∀ member, (graph.parentsOf member).map graph.members.get =
      ((graph.members.get member).inherits.filterMap document.parentNamed?).eraseDups
  /-- Otherwise the fault is the first one. -/
  refused : ∀ fault, build document = .error fault ↔ document.FirstFault fault
  /-- Lookup in the document says whether the graph is built, save where the graph is built
  although the document finds an enumeration for an inherited name. -/
  likeLookup : ((∃ graph, build document = .ok graph) ↔ document.AcceptedByLookup) ↔
    ((∃ graph, build document = .ok graph) → ∀ model ∈ document.models, ∀ name ∈ model.inherits,
      ∀ enumeration, document.lookup? name ≠ some (.enumeration enumeration))

/-- A graph is built exactly from accepted names. -/
theorem exists_build_eq_ok_iff : (∃ graph, build document = .ok graph) ↔
    (document.models.filter Model.isDefault).length ≤ 1 ∧
      ∀ model ∈ document.models, ∀ name ∈ model.inherits, document.Accepts model name := by
  simp only [build_eq_ok_iff, exists_and_left, exists_eq, and_true, fault?_eq_none_iff,
    findNamed?_models, Accepts]

/-- A graph is refused for the fault of its document. -/
theorem build_eq_error_iff {fault : SchemaError} :
    build document = .error fault ↔ document.FirstFault fault := by
  rw [← fault?_eq_some_iff, build]
  cases fault? document with
  | some found => simp
  | none => simp

/-- What lookup in the document accepts is accepted. -/
theorem exists_build_of_acceptedByLookup (accepted : document.AcceptedByLookup) :
    ∃ graph, build document = .ok graph := by
  refine exists_build_eq_ok_iff.mpr ⟨accepted.1, fun model listed name inherited => ?_⟩
  obtain ⟨parent, found, fits⟩ := accepted.2 model listed name inherited
  exact ⟨parent, by rw [parentNamed?, found], fits⟩

/-- The graph of a document is built by its lookup, which enumerations step out of the way of
where some model has their name in another case. -/
theorem build_byLookup (document : Document) : BuildsByLookup document where
  built := exists_build_eq_ok_iff
  parents := by
    intro graph builds
    obtain ⟨-, rfl⟩ := build_eq_ok_iff.mp builds
    exact ⟨rfl, map_get_parentsOf document⟩
  refused := fun fault => build_eq_error_iff
  likeLookup := by
    constructor
    · intro agrees builds model listed name inherited enumeration isEnumeration
      obtain ⟨parent, isModel, -⟩ := (agrees.mp builds).2 model listed name inherited
      exact nomatch isEnumeration.symm.trans isModel
    · -- A name leads to a model past an enumeration or by the lookup itself.
      intro unnoticed
      refine ⟨fun builds => ?_, exists_build_of_acceptedByLookup⟩
      obtain ⟨unique, accepted⟩ := exists_build_eq_ok_iff.mp builds
      refine ⟨unique, fun model listed name inherited => ?_⟩
      obtain ⟨parent, leads, fits⟩ := accepted model listed name inherited
      rw [parentNamed?] at leads
      split at leads
      · next found =>
          obtain rfl := Option.some.inj leads
          exact ⟨_, found, fits⟩
      · next found => exact absurd found (unnoticed builds model listed name inherited _)
      · contradiction

/-- A model inherits from an enumeration that has a namesake in another case. -/
def namesakes : Document where
  dialect := .current
  entities := [
    .enumeration { name := "Foo", values := [{ name := "A" }] },
    .model { name := "foo" },
    .model { name := "X", inherits := ["Foo"] }]
  distinctNames := by decide

/-- The name is exactly that of the enumeration, and the graph is built all the same. -/
theorem namesakes_built :
    (∃ enumeration, namesakes.find? "Foo" = some (.enumeration enumeration)) ∧
      (∃ model ∈ namesakes.models, "Foo" ∈ model.inherits) ∧
      (∃ graph, build namesakes = .ok graph) ∧ ¬namesakes.AcceptedByLookup := by
  have isEnumeration : namesakes.lookup? "Foo" =
      some (.enumeration { name := "Foo", values := [{ name := "A" }] }) := by
    decide +kernel
  have inherited : ∃ model ∈ namesakes.models, "Foo" ∈ model.inherits := by decide +kernel
  refine ⟨⟨_, Document.find?_eq_some_iff.mpr ⟨List.mem_cons_self, rfl⟩⟩, inherited,
    ⟨_, build_eq_ok_iff.mpr ⟨by decide +kernel, rfl⟩⟩, fun accepted => ?_⟩
  obtain ⟨model, listed, names⟩ := inherited
  obtain ⟨parent, isModel, -⟩ := accepted.2 model listed "Foo" names
  exact nomatch isEnumeration.symm.trans isModel

end InheritanceGraph

end SchemaMarkup
