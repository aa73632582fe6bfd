import SchemaMarkup.Inheritance.Resolution
import SchemaMarkup.Proofs.Entities
import SchemaMarkup.Proofs.Inheritance.CycleRepair

/-!
# Resolved documents

`InheritanceGraph.resolvedMembers` says of the models of a document, member by member,
what resolution makes of them, and `Document.resolveInheritance_eq` that resolution does
just that. The graph that is built again from a resolved document is told from the graph
that was declared: `parentsOf_rebuilt` strikes out the removed parents and every
other parent whose name differs from theirs only in case.
-/

namespace SchemaMarkup

namespace InheritanceGraph

variable {size : Nat}

/-- The graph that resolution ends with. -/
def settled (members : Vector Model size) : InheritanceGraph size :=
  (ofMembers members).breakCycles.2.applyDefaultFallback.2

/-- The members as resolution leaves them. -/
def resolvedMembers (members : Vector Model size) : Vector Model size :=
  Vector.ofFn fun place => { members.get place with
    inherits := (settled members).keptInherits (ofMembers members).breakCycles.1 place
    resolvedParents := (settled members).parentNames place
    fullFields := (settled members).mergedFields.get place }

/-- The declared graph without the edges that repair removes. -/
def kept (members : Vector Model size) : InheritanceGraph size :=
  (ofMembers members).removeEdges (ofMembers members).backEdges

/-- The graph of the inherited names that are left in the resolved members. -/
def rebuilt (members : Vector Model size) : InheritanceGraph size :=
  ofMembers (resolvedMembers members)

/-- Whether repair of a child strikes the name of a parent: up to case it is the name of
a parent that was removed. -/
def strikes (graph : InheritanceGraph size) (child parent : Fin size) : Bool :=
  graph.backEdges.any fun edge =>
    edge.1 == child && equalIgnoringCase (graph.nameOf parent) (graph.nameOf edge.2)

variable {members : Vector Model size}

theorem settled_eq (members : Vector Model size) :
    settled members = (kept members).withDefault :=
  applyDefaultFallback_breakCycles _

theorem edge_kept {child parent : Fin size} :
    (kept members).Edge child parent ↔
      (ofMembers members).Edge child parent ∧ (child, parent) ∉ (ofMembers members).backEdges :=
  edge_removeEdges

/-- No member keeps a parent twice. -/
theorem nodup_parentsOf_kept (members : Vector Model size) (child : Fin size) :
    ((kept members).parentsOf child).Nodup := by
  rw [kept, parentsOf_removeEdges]
  exact (nodup_parentsOf_ofMembers members child).filter _

theorem acyclic_kept (members : Vector Model size) : (kept members).Acyclic :=
  acyclic_removeEdges_backEdges _

@[simp] theorem members_settled (members : Vector Model size) :
    (settled members).members = members := by
  rw [settled_eq]
  rfl

@[simp] theorem nameOf_settled (members : Vector Model size) (member : Fin size) :
    (settled members).nameOf member = (members.get member).name := by
  rw [nameOf, members_settled]

@[simp] theorem nameOf_ofMembers (members : Vector Model size) (member : Fin size) :
    (ofMembers members).nameOf member = (members.get member).name := rfl

/-- Resolution ends with a graph without cycles. -/
theorem acyclic_settled (members : Vector Model size) : (settled members).Acyclic := by
  rw [settled_eq]
  exact (acyclic_kept members).withDefaultFor _

theorem get_resolvedMembers (members : Vector Model size) (place : Fin size) :
    (resolvedMembers members).get place = { members.get place with
      inherits := (settled members).keptInherits (ofMembers members).breakCycles.1 place
      resolvedParents := (settled members).parentNames place
      fullFields := (settled members).mergedFields.get place } :=
  Vector.getElem_ofFn place.isLt

@[simp] theorem name_resolvedMembers (members : Vector Model size) (place : Fin size) :
    ((resolvedMembers members).get place).name = (members.get place).name := by
  rw [get_resolvedMembers]

@[simp] theorem kind_resolvedMembers (members : Vector Model size) (place : Fin size) :
    ((resolvedMembers members).get place).kind = (members.get place).kind := by
  rw [get_resolvedMembers]

@[simp] theorem isAbstract_resolvedMembers (members : Vector Model size) (place : Fin size) :
    ((resolvedMembers members).get place).isAbstract = (members.get place).isAbstract := by
  rw [get_resolvedMembers]

@[simp] theorem isInterface_resolvedMembers (members : Vector Model size) (place : Fin size) :
    ((resolvedMembers members).get place).isInterface = (members.get place).isInterface := by
  rw [get_resolvedMembers]
  rfl

@[simp] theorem isDefault_resolvedMembers (members : Vector Model size) (place : Fin size) :
    ((resolvedMembers members).get place).isDefault = (members.get place).isDefault := by
  rw [get_resolvedMembers]

@[simp] theorem fields_resolvedMembers (members : Vector Model size) (place : Fin size) :
    ((resolvedMembers members).get place).fields = (members.get place).fields := by
  rw [get_resolvedMembers]

theorem resolvedParents_resolvedMembers (members : Vector Model size) (place : Fin size) :
    ((resolvedMembers members).get place).resolvedParents =
      (settled members).parentNames place := by
  rw [get_resolvedMembers]

theorem fullFields_resolvedMembers (members : Vector Model size) (place : Fin size) :
    ((resolvedMembers members).get place).fullFields =
      (settled members).mergedFields.get place := by
  rw [get_resolvedMembers]

/-- Without repairs a member keeps all the names that it inherits. -/
@[simp] theorem keptInherits_nil (graph : InheritanceGraph size) (member : Fin size) :
    graph.keptInherits [] member = (graph.members.get member).inherits := by
  simp [keptInherits]

/-- No name is added to those that a member inherits. -/
theorem inherits_resolvedMembers_subset (members : Vector Model size) (place : Fin size) :
    ((resolvedMembers members).get place).inherits ⊆ (members.get place).inherits := by
  simp only [get_resolvedMembers, keptInherits, members_settled]
  exact List.filter_subset_self _

/-! ## Resolution of members -/

/-- A member is found by its name, if no two have the same. -/
theorem find?_nameOf {graph : InheritanceGraph size} (distinct : Function.Injective graph.nameOf)
    (member : Fin size) : graph.find? (graph.nameOf member) = some member := by
  rw [find?]
  cases found : (List.finRange size).find? fun other =>
      graph.nameOf other == graph.nameOf member with
  | none => simpa using List.find?_eq_none.mp found member (List.mem_finRange member)
  | some other =>
      have same := List.find?_some found
      rw [beq_iff_eq] at same
      rw [distinct same]

/-- Each member is resolved in its place. -/
theorem resolveModel_get (distinct : NamesDistinct members) (place : Fin size) :
    (settled members).resolveModel (ofMembers members).breakCycles.1
      (settled members).mergedFields (members.get place) = (resolvedMembers members).get place := by
  have injective : Function.Injective (settled members).nameOf := by
    intro first second same
    exact distinct (by simpa using same)
  have found := find?_nameOf injective place
  rw [nameOf_settled] at found
  rw [resolveModel, found, get_resolvedMembers]

/-- Resolving every member gives the resolved members. -/
theorem map_resolveModel (distinct : NamesDistinct members) :
    members.toList.map ((settled members).resolveModel (ofMembers members).breakCycles.1
      (settled members).mergedFields) = (resolvedMembers members).toList := by
  rw [← map_get_finRange, ← map_get_finRange, List.map_map]
  exact List.map_congr_left fun place _ => resolveModel_get distinct place

/-! ## The graph of resolved members -/

/-- The names that are left are those of declared parents that are not struck. -/
theorem parentsOf_rebuilt_declared (members : Vector Model size) (child : Fin size) :
    (rebuilt members).parentsOf child =
      ((ofMembers members).parentsOf child).filter
        fun parent => !(ofMembers members).strikes child parent := by
  have places : placeOf? (resolvedMembers members) = placeOf? members :=
    placeOf?_congr (name_resolvedMembers members)
  have left : ((resolvedMembers members).get child).inherits = (members.get child).inherits.filter
      fun name => !(ofMembers members).backEdges.any fun edge =>
        edge.1 == child && equalIgnoringCase name (members.get edge.2).name := by
    rw [get_resolvedMembers, keptInherits, members_settled]
    refine List.filter_congr fun name _ => ?_
    rw [← edges_breakCycles, List.any_map]
    simp only [nameOf_settled, Repair.edge, Function.comp_def]
  rw [rebuilt, parentsOf_ofMembers, parentsOf_ofMembers, places, left, ← eraseDups_filter,
    List.filterMap_filter, List.filter_filterMap]
  congr 1
  apply List.filterMap_congr
  intro name _
  cases found : placeOf? members name with
  | none => simp
  | some parent =>
      have alike := equalIgnoringCase_of_placeOf? found
      have same : ((ofMembers members).strikes child parent) =
          (ofMembers members).backEdges.any fun edge =>
            edge.1 == child && equalIgnoringCase name (members.get edge.2).name := by
        simp only [strikes, nameOf_ofMembers, equalIgnoringCase_congr alike]
      rw [Option.filter_some, same]

/-- Removed parents are struck. -/
theorem strikes_of_mem_backEdges {graph : InheritanceGraph size} {child parent : Fin size}
    (removed : (child, parent) ∈ graph.backEdges) : graph.strikes child parent = true := by
  rw [strikes, List.any_eq_true]
  exact ⟨(child, parent), removed, by simp⟩

/-- Of the parents that repair keeps, those that are not struck are left. -/
theorem parentsOf_rebuilt (members : Vector Model size) (child : Fin size) :
    (rebuilt members).parentsOf child =
      ((kept members).parentsOf child).filter
        fun parent => !(ofMembers members).strikes child parent := by
  rw [parentsOf_rebuilt_declared, kept, parentsOf_removeEdges, List.filter_filter]
  apply List.filter_congr
  intro parent _
  by_cases removed : (child, parent) ∈ (ofMembers members).backEdges
  · simp [strikes_of_mem_backEdges removed]
  · simp [removed]

theorem edge_rebuilt {child parent : Fin size} :
    (rebuilt members).Edge child parent ↔
      (kept members).Edge child parent ∧ (ofMembers members).strikes child parent = false := by
  rw [Edge, parentsOf_rebuilt, List.mem_filter, Bool.not_eq_true']
  rfl

/-- The graph of the names that are left has no cycle. -/
theorem acyclic_rebuilt (members : Vector Model size) : (rebuilt members).Acyclic :=
  (acyclic_kept members).mono fun _ _ edge => (edge_rebuilt.mp edge).1

/-- What holds of some members holds of any others that are the same models. -/
theorem of_toList_eq (holds : ∀ {size : Nat}, Vector Model size → Prop) {count : Nat}
    {members : Vector Model size} {others : Vector Model count}
    (same : members.toList = others.toList) (known : holds members) : holds others := by
  obtain rfl : size = count := by
    simpa using congrArg List.length same
  obtain rfl : members = others := Vector.toList_inj.mp same
  exact known

end InheritanceGraph

namespace Document

open InheritanceGraph

/-! ## Models of a document -/

/-- A member of the graph of a document is told by its name. -/
theorem namesDistinct_membersOf (document : Document) : NamesDistinct (membersOf document) := by
  intro first second same
  have named : document.models[first].name = document.models[second].name := same
  have distinct := document.nodup_names_models
  rw [List.nodup_iff_injective_get] at distinct
  have places := @distinct ⟨first, by simp⟩ ⟨second, by simp⟩ (by simpa using named)
  simpa [Fin.ext_iff] using places

/-- No model has two places. -/
theorem injective_get_membersOf (document : Document) :
    Function.Injective (membersOf document).get :=
  fun _ _ same => document.namesDistinct_membersOf (congrArg Model.name same)

/-! ## Resolution -/

variable {size : Nat} {document resolved : Document} {warnings : List Diagnostic}

/-- Resolution of a document with given members, told without order of events. -/
theorem resolveInheritance_eq {members : Vector Model size}
    (listed : members.toList = document.models) (faultless : fault? document = none) :
    document.resolveInheritance = .ok
      (document.mapModels
        ((settled members).resolveModel (ofMembers members).breakCycles.1
          (settled members).mergedFields)
        ((settled members).name_resolveModel (ofMembers members).breakCycles.1
          (settled members).mergedFields),
      (ofMembers members).breakCycles.1.map (settled members).repairWarning) := by
  obtain rfl : size = document.models.length := by
    simpa using congrArg List.length listed
  obtain rfl : members = membersOf document := Vector.toList_inj.mp listed
  rw [resolveInheritance, build_eq_ok_iff.mpr ⟨faultless, rfl⟩]
  rfl

/-- A document that can be resolved declares no faulty inheritance. -/
theorem faultless_of_resolveInheritance
    (succeeds : document.resolveInheritance = .ok (resolved, warnings)) :
    fault? document = none := by
  rw [resolveInheritance, build] at succeeds
  cases faulty : fault? document with
  | some fault =>
      rw [faulty] at succeeds
      contradiction
  | none => rfl

/-- Resolution succeeds exactly when the document declares no faulty inheritance. -/
theorem exists_resolveInheritance_iff :
    (∃ outcome, document.resolveInheritance = .ok outcome) ↔ fault? document = none := by
  constructor
  · rintro ⟨⟨resolved, warnings⟩, succeeds⟩
    exact faultless_of_resolveInheritance succeeds
  · exact fun faultless => ⟨_, resolveInheritance_eq (toList_membersOf document) faultless⟩

/-- What a resolution that succeeds returns. -/
theorem outcome_of_resolveInheritance
    (succeeds : document.resolveInheritance = .ok (resolved, warnings)) :
    resolved = document.mapModels
        ((settled (membersOf document)).resolveModel (ofMembers (membersOf document)).breakCycles.1
          (settled (membersOf document)).mergedFields)
        ((settled (membersOf document)).name_resolveModel
          (ofMembers (membersOf document)).breakCycles.1
          (settled (membersOf document)).mergedFields) ∧
      warnings = (ofMembers (membersOf document)).breakCycles.1.map
        (settled (membersOf document)).repairWarning := by
  rw [resolveInheritance_eq (toList_membersOf document) (faultless_of_resolveInheritance succeeds),
    Except.ok.injEq, Prod.mk.injEq] at succeeds
  exact ⟨succeeds.1.symm, succeeds.2.symm⟩

/-- The models of a resolved document are the resolved members of its graph. -/
theorem models_of_resolveInheritance
    (succeeds : document.resolveInheritance = .ok (resolved, warnings)) :
    resolved.models = (resolvedMembers (membersOf document)).toList := by
  rw [(outcome_of_resolveInheritance succeeds).1, models_mapModels,
    ← map_resolveModel document.namesDistinct_membersOf, toList_membersOf]

/-- The enumerations of a resolved document are the declared ones. -/
theorem enumeration_mem_resolved
    (succeeds : document.resolveInheritance = .ok (resolved, warnings)) {contents : Enumeration} :
    Entity.enumeration contents ∈ resolved.entities ↔
      Entity.enumeration contents ∈ document.entities := by
  rw [(outcome_of_resolveInheritance succeeds).1, enumeration_mem_mapModels]

/-- The warnings are those on the repairs of the graph. -/
theorem warnings_of_resolveInheritance
    (succeeds : document.resolveInheritance = .ok (resolved, warnings)) :
    warnings = (ofMembers (membersOf document)).breakCycles.1.map
      (settled (membersOf document)).repairWarning :=
  (outcome_of_resolveInheritance succeeds).2

/-- A resolved document declares no faulty inheritance. -/
theorem faultless_resolved (succeeds : document.resolveInheritance = .ok (resolved, warnings)) :
    fault? resolved = none := by
  have faultless := faultless_of_resolveInheritance succeeds
  have listed := models_of_resolveInheritance succeeds
  rw [fault?_eq_none_iff] at faultless ⊢
  rw [← toList_membersOf document, ← map_get_finRange] at faultless
  rw [listed, ← map_get_finRange]
  generalize membersOf document = members at *
  simp only [List.filter_map, List.length_map, Function.comp_def, List.forall_mem_map,
    isDefault_resolvedMembers] at faultless ⊢
  refine ⟨faultless.1, fun place listed name inherited => ?_⟩
  obtain ⟨parent, found, fits⟩ := faultless.2 place listed name
    (inherits_resolvedMembers_subset members place inherited)
  rw [map_get_finRange, findNamed?_toList] at found
  obtain ⟨target, atPlace, rfl⟩ := Option.map_eq_some_iff.mp found
  refine ⟨(resolvedMembers members).get target, ?_, ?_⟩
  · rw [map_get_finRange, findNamed?_toList, placeOf?_congr (name_resolvedMembers members),
      atPlace, Option.map_some]
  · rwa [isInterface_resolvedMembers, kind_resolvedMembers]

end Document

end SchemaMarkup
