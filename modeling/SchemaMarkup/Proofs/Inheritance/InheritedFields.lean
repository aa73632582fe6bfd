import SchemaMarkup.Proofs.Classification
import SchemaMarkup.Proofs.Findings
import SchemaMarkup.Proofs.Inheritance.Acyclicity
import SchemaMarkup.Proofs.Inheritance.MergedFields

/-!
# Inherited fields

Merging copies fields from parent to child and classification works on every copy by itself.
A copy is told from no other all the same: `compile_inheritedFields` says that each field
which a compiled model has is, in every part, the declared field of that name of the entity
it says it is declared in, and that this entity is the model or one of its ancestors.

Before classification a merged field is a member of the declared list of an ancestor. After
it the two are results of one function on one field, which touches neither its name nor
where it is declared.
-/

open Relation (ReflTransGen)

namespace SchemaMarkup

/-! ## Merging adds nothing -/

/-- Adding fields one by one brings in these fields and no others. -/
theorem mem_foldl_add {add : List Field → Field → List Field}
    (adds : ∀ fields field, ∀ other ∈ add fields field, other ∈ fields ∨ other = field)
    {fields added : List Field} {field : Field} (listed : field ∈ added.foldl add fields) :
    field ∈ fields ∨ field ∈ added := by
  induction added generalizing fields with
  | nil => exact .inl listed
  | cons first rest inductionHypothesis =>
      rcases inductionHypothesis listed with before | later
      · rcases adds fields first field before with old | isFirst
        · exact .inl old
        · exact .inr (isFirst ▸ List.mem_cons_self)
      · exact .inr (List.mem_cons_of_mem _ later)

/-- A merged field is an inherited or a declared one. -/
theorem mem_mergeFields {inherited declared : List Field} {field : Field}
    (listed : field ∈ mergeFields inherited declared) : field ∈ inherited ∨ field ∈ declared := by
  have inherits : ∀ fields field, ∀ other ∈ addInherited fields field,
      other ∈ fields ∨ other = field := by
    intro fields field other listed
    rw [addInherited] at listed
    split at listed
    · exact .inl listed
    · simpa using listed
  have declares : ∀ fields field, ∀ other ∈ addDeclared fields field,
      other ∈ fields ∨ other = field := by
    intro fields field other listed
    rw [addDeclared] at listed
    split at listed
    · obtain ⟨before, known, rfl⟩ := List.mem_map.mp listed
      split
      · exact .inr rfl
      · exact .inl known
    · simpa using listed
  rcases mem_foldl_add declares listed with before | isDeclared
  · exact .inl ((mem_foldl_add inherits before).resolve_left List.not_mem_nil)
  · exact .inr isDeclared

namespace InheritanceGraph

variable {size : Nat} {graph : InheritanceGraph size}

/-- A merged field is declared by the member or by one of its ancestors. -/
theorem exists_declares (acyclic : graph.Acyclic) {member : Fin size} {field : Field}
    (listed : field ∈ graph.mergedFields.get member) :
    ∃ ancestor, ReflTransGen graph.Edge member ancestor ∧
      field ∈ (graph.members.get ancestor).fields := by
  induction member using acyclic.induction with
  | step member inductionHypothesis =>
      rw [get_mergedFields acyclic, fieldsFrom] at listed
      rcases mem_mergeFields listed with inherited | declared
      · obtain ⟨parent, edge, above⟩ := List.mem_flatMap.mp inherited
        obtain ⟨ancestor, path, declares⟩ := inductionHypothesis parent edge above
        exact ⟨ancestor, path.head edge, declares⟩
      · exact ⟨member, .refl, declared⟩

end InheritanceGraph

namespace Document

open InheritanceGraph

variable {document resolved : Document} {warnings : List Diagnostic}

/-! ## Resolved and compiled documents -/

/-- Resolution leaves the declared fields where they belong. -/
theorem OwnsFields.of_resolveInheritance (owns : document.OwnsFields)
    (succeeds : document.resolveInheritance = .ok (resolved, warnings)) :
    resolved.OwnsFields := by
  intro model listed
  rw [models_of_resolveInheritance succeeds, ← map_get_finRange] at listed
  obtain ⟨place, _, rfl⟩ := List.mem_map.mp listed
  exact (owns _ (get_membersOf_mem place)).of_fields_eq (name_resolvedMembers _ place)
    (fields_resolvedMembers _ place)

/-- A path in the graph that resolution ends with is one over resolved parents. -/
theorem path_resolved (succeeds : document.resolveInheritance = .ok (resolved, warnings))
    {member ancestor : Fin document.models.length}
    (path : ReflTransGen (settled (membersOf document)).Edge member ancestor) :
    ReflTransGen resolved.ResolvedEdge ((membersOf document).get member).name
      ((membersOf document).get ancestor).name := by
  refine path.lift (fun place => ((membersOf document).get place).name) fun child parent edge => ?_
  exact (resolvedEdge_iff succeeds).mpr
    ⟨child, parent, edge, nameOf_settled _ child, nameOf_settled _ parent⟩

/-- A field of a resolved model is declared by the entity that it names, the model itself or
an ancestor. -/
theorem exists_owner_of_resolved (owns : document.OwnsFields)
    (succeeds : document.resolveInheritance = .ok (resolved, warnings)) {model : Model}
    (listed : model ∈ resolved.models) {field : Field} (has : field ∈ model.fullFields) :
    ∃ owner ∈ resolved.models, owner.name = field.declaredIn ∧ field ∈ owner.fields ∧
      ReflTransGen resolved.ResolvedEdge model.name owner.name := by
  have models := models_of_resolveInheritance succeeds
  rw [← map_get_finRange] at models
  rw [models] at listed
  obtain ⟨member, _, rfl⟩ := List.mem_map.mp listed
  rw [fullFields_resolvedMembers] at has
  obtain ⟨ancestor, path, declared⟩ := exists_declares (acyclic_settled _) has
  rw [members_settled] at declared
  refine ⟨(resolvedMembers (membersOf document)).get ancestor, ?_, ?_, ?_, ?_⟩
  · rw [models]
    exact List.mem_map_of_mem (List.mem_finRange ancestor)
  · rw [name_resolvedMembers]
    exact ((owns _ (get_membersOf_mem ancestor)).declaredIn field declared).symm
  · rwa [fields_resolvedMembers]
  · rw [name_resolvedMembers, name_resolvedMembers]
    exact path_resolved succeeds path

/-- A change that keeps the resolved parents of models keeps all edges. -/
theorem resolvedEdge_mapModels {change : Model → Model}
    (keepsName : ∀ model, (change model).name = model.name)
    (keepsParents : ∀ model, (change model).resolvedParents = model.resolvedParents) :
    (document.mapModels change keepsName).ResolvedEdge = document.ResolvedEdge := by
  funext child parent
  simp only [ResolvedEdge, models_mapModels, List.mem_map, exists_exists_and_eq_and,
    keepsName, keepsParents]

end Document

/-- Classification leaves the resolved parents alone. -/
theorem Registry.resolvedEdge_classifyDocument (registry : Registry) (document : Document) :
    (registry.classifyDocument document).1.ResolvedEdge = document.ResolvedEdge :=
  Document.resolvedEdge_mapModels registry.name_classifyModel fun _ => rfl

/-- A compiled document is read, resolved and classified. -/
theorem classified_of_compile {options : CompilerOptions} {source : Text} {compiled : Compiled}
    (succeeds : compile options source = .ok compiled) :
    ∃ document unknownSections resolved repairs,
      Document.read options.toReadingOptions source = .ok (document, unknownSections) ∧
      document.resolveInheritance = .ok (resolved, repairs) ∧
      compiled.document = (Registry.standard.classifyDocument resolved).1 := by
  obtain ⟨document, unknownSections, found, isRead, isAnalyzed, _⟩ := compile_eq_ok_iff.mp succeeds
  obtain ⟨resolved, repairs, isResolved, isClassified, _⟩ :=
    Document.analyze_eq_ok_iff.mp isAnalyzed
  exact ⟨document, unknownSections, resolved, repairs, isRead, isResolved, isClassified⟩

/-- Every field that a model of a compiled document has is the declared field of its name of
the entity that it names, and that entity is the model or one of its ancestors. -/
theorem compile_inheritedFields {options : CompilerOptions} {source : Text} {compiled : Compiled}
    (succeeds : compile options source = .ok compiled) :
    ∀ model ∈ compiled.document.models, ∀ field ∈ model.fullFields, ∃ owner,
      compiled.document.model? field.declaredIn = some owner ∧
      ReflTransGen compiled.document.ResolvedEdge model.name owner.name ∧
      owner.field? field.name = some field := by
  obtain ⟨document, _, resolved, _, isRead, isResolved, isClassified⟩ :=
    classified_of_compile succeeds
  have owns := (Document.ownsFields_of_read isRead).of_resolveInheritance isResolved
  have models := Registry.standard.models_classifyDocument resolved
  rw [isClassified, Registry.resolvedEdge_classifyDocument]
  intro classified listed changed has
  rw [models] at listed
  obtain ⟨model, isResolvedModel, rfl⟩ := List.mem_map.mp listed
  obtain ⟨field, isMerged, rfl⟩ := List.mem_map.mp has
  obtain ⟨owner, isModel, named, declared, path⟩ :=
    Document.exists_owner_of_resolved (Document.ownsFields_of_read isRead) isResolved
      isResolvedModel isMerged
  -- The owner is classified by the same function as the copy.
  have isListed : Registry.standard.classifyModel owner ∈
      (Registry.standard.classifyDocument resolved).1.models :=
    models ▸ List.mem_map_of_mem isModel
  refine ⟨Registry.standard.classifyModel owner, ?_, path, ?_⟩
  · rw [(Registry.standard.sameOrigin_classifyField field).declaredIn, ← named]
    exact Document.model?_name isListed
  · exact (owns.classifyDocument Registry.standard _ isListed).field?_name
      (List.mem_map_of_mem declared)

/-- A model below a model below an interface, with attributes at both upper levels. -/
def ownedAccounts : Text :=
  "## Owned ::interface
- owner_id: identifier [reference(Account)]
## Account : Owned
- name: string(80) [unique]
## Admin : Account
- level: integer".toList

/-- The copies of the two upper levels are classified like their declarations. -/
theorem ownedAccounts_inheritedFields :
    ∃ compiled, compile {} ownedAccounts = .ok compiled ∧
      (compiled.document.models.map fun model =>
        model.fullFields.map fun field => (field.declaredIn, field.flags.toList)) =
          [[("Owned", [.foreignKey])],
           [("Owned", [.foreignKey]), ("Account", [.unique])],
           [("Owned", [.foreignKey]), ("Account", [.unique]), ("Admin", [])]] ∧
      ∀ model ∈ compiled.document.models, ∀ field ∈ model.fullFields, ∃ owner,
        compiled.document.model? field.declaredIn = some owner ∧
        ReflTransGen compiled.document.ResolvedEdge model.name owner.name ∧
        owner.field? field.name = some field := by
  have declared : ((compile {} ownedAccounts).toOption.map fun compiled =>
      compiled.document.models.map fun model =>
        model.fullFields.map fun field => (field.declaredIn, field.flags.toList)) =
          some [[("Owned", [.foreignKey])],
            [("Owned", [.foreignKey]), ("Account", [.unique])],
            [("Owned", [.foreignKey]), ("Account", [.unique]), ("Admin", [])]] := by
    decide +kernel
  cases outcome : compile {} ownedAccounts with
  | error fault =>
      rw [outcome] at declared
      contradiction
  | ok compiled =>
      rw [outcome] at declared
      exact ⟨compiled, rfl, Option.some.inj declared, compile_inheritedFields outcome⟩

end SchemaMarkup
