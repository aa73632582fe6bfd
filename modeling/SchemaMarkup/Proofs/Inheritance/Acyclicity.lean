import SchemaMarkup.Proofs.Inheritance.ResolvedDocument

/-!
# Resolution leaves no cycle

Seen from outside, an edge joins two names. `Document.ResolvedEdge` reads edges off the
resolved parents of a document and `InheritanceGraph.NamedEdge` off a graph, and the edges
that resolution removed are the declared ones that are not resolved.
`Document.LeavesNoCycle` collects what holds of every resolution: neither reading of the
resolved document has a cycle, and the warnings tell of the removed edges one by one.
-/

open Relation (ReflTransGen TransGen)

namespace SchemaMarkup

namespace InheritanceGraph

variable {size : Nat}

/-- Two names are those of a member and of one of its parents. -/
def NamedEdge (graph : InheritanceGraph size) (child parent : String) : Prop :=
  ∃ member ancestor, graph.Edge member ancestor ∧
    graph.nameOf member = child ∧ graph.nameOf ancestor = parent

/-- Where members are told by their names, so are edges. -/
theorem namedEdge_iff {graph : InheritanceGraph size}
    (injective : Function.Injective graph.nameOf) {member ancestor : Fin size} :
    graph.NamedEdge (graph.nameOf member) (graph.nameOf ancestor) ↔
      graph.Edge member ancestor := by
  constructor
  · rintro ⟨otherMember, otherAncestor, edge, same, alsoSame⟩
    rwa [injective same, injective alsoSame] at edge
  · exact fun edge => ⟨member, ancestor, edge, rfl, rfl⟩

/-- Where members are told by their names, a path of names is one of members. -/
theorem path_of_namedPath {graph : InheritanceGraph size}
    (injective : Function.Injective graph.nameOf) {child ancestor : String}
    (path : TransGen graph.NamedEdge child ancestor) :
    ∃ first last, TransGen graph.Edge first last ∧
      graph.nameOf first = child ∧ graph.nameOf last = ancestor := by
  induction path with
  | single edge =>
      obtain ⟨member, parent, edge, named, parentNamed⟩ := edge
      exact ⟨member, parent, .single edge, named, parentNamed⟩
  | tail _ edge inductionHypothesis =>
      obtain ⟨first, last, path, named, reached⟩ := inductionHypothesis
      obtain ⟨member, parent, edge, same, parentNamed⟩ := edge
      obtain rfl : member = last := injective (same.trans reached.symm)
      exact ⟨first, parent, path.tail edge, named, parentNamed⟩

/-- Names lead back to themselves only where members do. -/
theorem Acyclic.named {graph : InheritanceGraph size} (acyclic : graph.Acyclic)
    (injective : Function.Injective graph.nameOf) (name : String) :
    ¬TransGen graph.NamedEdge name name := by
  intro cycle
  obtain ⟨first, last, path, named, reached⟩ := path_of_namedPath injective cycle
  obtain rfl : first = last := injective (named.trans reached.symm)
  exact acyclic first path

variable {members : Vector Model size}

theorem injective_nameOf_ofMembers (distinct : NamesDistinct members) :
    Function.Injective (ofMembers members).nameOf :=
  distinct

theorem injective_nameOf_settled (distinct : NamesDistinct members) :
    Function.Injective (settled members).nameOf := by
  intro first second same
  rw [nameOf_settled, nameOf_settled] at same
  exact distinct same

/-- The back edges are the edges that resolution takes away: no member gets one back with
the default entity. -/
theorem mem_backEdges_iff {child parent : Fin size} :
    (child, parent) ∈ (ofMembers members).backEdges ↔
      (ofMembers members).Edge child parent ∧ ¬(settled members).Edge child parent := by
  rw [settled_eq, withDefault, edge_withDefaultFor, edge_kept]
  constructor
  · intro removed
    refine ⟨edge_of_mem_backEdges removed, ?_⟩
    rintro (⟨_, kept⟩ | ⟨_, regained⟩)
    · exact kept removed
    · exact (mem_defaultParents.mp regained).2.2.2 (backEdge_closes removed)
  · rintro ⟨declared, absent⟩
    by_contra kept
    exact absent (.inl ⟨declared, kept⟩)

/-- The names of the removed edges, in the order of the repairs. -/
def removedNames (members : Vector Model size) : List (String × String) :=
  (ofMembers members).breakCycles.1.map fun repair =>
    ((members.get repair.child).name, (members.get repair.removedParent).name)

/-- The removed edges have the names of declared edges that resolution takes away. -/
theorem mem_removedNames (distinct : NamesDistinct members) {child parent : String} :
    (child, parent) ∈ removedNames members ↔
      (ofMembers members).NamedEdge child parent ∧ ¬(settled members).NamedEdge child parent := by
  have listed : removedNames members = (ofMembers members).backEdges.map
      fun edge => ((members.get edge.1).name, (members.get edge.2).name) := by
    rw [← edges_breakCycles, List.map_map]
    rfl
  rw [listed, List.mem_map]
  constructor
  · rintro ⟨⟨member, ancestor⟩, removed, named⟩
    obtain ⟨rfl, rfl⟩ := Prod.mk.inj named
    obtain ⟨declared, absent⟩ := mem_backEdges_iff.mp removed
    refine ⟨⟨member, ancestor, declared, rfl, rfl⟩, ?_⟩
    rwa [← nameOf_settled, ← nameOf_settled, namedEdge_iff (injective_nameOf_settled distinct)]
  · rintro ⟨⟨member, ancestor, declared, rfl, rfl⟩, absent⟩
    refine ⟨(member, ancestor), mem_backEdges_iff.mpr ⟨declared, fun kept => ?_⟩, rfl⟩
    exact absent ⟨member, ancestor, kept, nameOf_settled members member,
      nameOf_settled members ancestor⟩

/-- No two removed edges have the same names. -/
theorem nodup_removedNames (distinct : NamesDistinct members) :
    (removedNames members).Nodup := by
  have edges : ((ofMembers members).breakCycles.1.map Repair.edge).Nodup := by
    rw [edges_breakCycles]
    exact Walk.nodup_backEdges_all (nodup_parentsOf_ofMembers members)
  have named : removedNames members = ((ofMembers members).breakCycles.1.map Repair.edge).map
      fun edge => ((members.get edge.1).name, (members.get edge.2).name) := by
    rw [List.map_map]
    rfl
  rw [named]
  refine edges.map ?_
  rintro ⟨member, ancestor⟩ ⟨otherMember, otherAncestor⟩ same
  obtain ⟨first, second⟩ := Prod.mk.inj same
  exact Prod.ext (distinct first) (distinct second)

end InheritanceGraph

namespace Document

open InheritanceGraph

/-- Two names are those of a model and of one of its resolved parents. -/
def ResolvedEdge (document : Document) (child parent : String) : Prop :=
  ∃ model ∈ document.models, model.name = child ∧ parent ∈ model.resolvedParents

/-- A warning tells that an edge was removed, on the header line of the child. What took
the place of the edge may be related to it. -/
def TellsOf (document : Document) (edge : String × String) (warning : Diagnostic) : Prop :=
  ∃ model ∈ document.models, model.name = edge.1 ∧
    ∃ related, warning = { Diagnostic.cycleDetected edge.1 edge.2 model.location with related }

/-- What resolution does about cycles. `declared` is the graph of the document and
`rebuilt` that of the names which the resolved document still inherits. -/
structure LeavesNoCycle (document resolved : Document) (warnings : List Diagnostic)
    (declared : InheritanceGraph document.models.length)
    (rebuilt : InheritanceGraph resolved.models.length) : Prop where
  /-- No name leads to itself over resolved parents. -/
  resolvedParents : ∀ name, ¬TransGen resolved.ResolvedEdge name name
  /-- No member leads to itself over the inherited names that are left. -/
  inherits : rebuilt.Acyclic
  /-- Only declared edges are left among those. -/
  onlyDeclared : ∀ child parent, rebuilt.NamedEdge child parent → declared.NamedEdge child parent
  /-- Cycles are warned of exactly when there was one. -/
  warned : (∃ warning ∈ warnings, warning.code = .cycleDetected) ↔ ¬declared.Acyclic
  /-- The removed edges are the declared ones that are not resolved, each with its warning. -/
  oncePerEdge : ∃ removed : List (String × String), removed.Nodup ∧
    (∀ child parent, (child, parent) ∈ removed ↔
      declared.NamedEdge child parent ∧ ¬resolved.ResolvedEdge child parent) ∧
    List.Forall₂ document.TellsOf removed warnings

variable {document resolved : Document} {warnings : List Diagnostic}

/-- Resolved parents are those of the graph that resolution ends with. -/
theorem resolvedEdge_iff (succeeds : document.resolveInheritance = .ok (resolved, warnings))
    {child parent : String} :
    resolved.ResolvedEdge child parent ↔
      (settled (membersOf document)).NamedEdge child parent := by
  rw [ResolvedEdge, models_of_resolveInheritance succeeds, ← map_get_finRange]
  simp only [List.mem_map, List.mem_finRange, true_and, exists_exists_eq_and, NamedEdge,
    nameOf_settled, get_resolvedMembers, parentNames, Edge]
  constructor
  · rintro ⟨member, named, ancestor, edge, parentNamed⟩
    exact ⟨member, ancestor, edge, named, parentNamed⟩
  · rintro ⟨member, ancestor, edge, named, parentNamed⟩
    exact ⟨member, named, ancestor, edge, parentNamed⟩

/-- The graph of a resolved document is that of the resolved members. -/
theorem ofMembers_membersOf_resolved
    (succeeds : document.resolveInheritance = .ok (resolved, warnings)) :
    (ofMembers (membersOf resolved)).Acyclic ∧
      ∀ child parent, (ofMembers (membersOf resolved)).NamedEdge child parent →
        (ofMembers (membersOf document)).NamedEdge child parent := by
  refine of_toList_eq
    (fun members => (ofMembers members).Acyclic ∧ ∀ child parent,
      (ofMembers members).NamedEdge child parent →
        (ofMembers (membersOf document)).NamedEdge child parent)
    (models_of_resolveInheritance succeeds).symm ⟨acyclic_rebuilt _, ?_⟩
  rintro _ _ ⟨member, ancestor, edge, rfl, rfl⟩
  refine ⟨member, ancestor, (edge_kept.mp (edge_rebuilt.mp edge).1).1, ?_, ?_⟩
  · exact (name_resolvedMembers _ member).symm
  · exact (name_resolvedMembers _ ancestor).symm

/-- The warning on a repair tells of the edge that was taken out. -/
theorem tellsOf_repairWarning (document : Document) (repair : Repair document.models.length) :
    document.TellsOf
      (((membersOf document).get repair.child).name,
        ((membersOf document).get repair.removedParent).name)
      ((settled (membersOf document)).repairWarning repair) := by
  refine ⟨(membersOf document).get repair.child, get_membersOf_mem _, rfl, ?_⟩
  rw [repairWarning, members_settled, nameOf_settled, nameOf_settled]
  split
  · exact ⟨_, rfl⟩
  · exact ⟨_, rfl⟩

/-- Cycles are warned of exactly when a repair took place. -/
theorem exists_cycleDetected_iff
    (succeeds : document.resolveInheritance = .ok (resolved, warnings)) :
    (∃ warning ∈ warnings, warning.code = .cycleDetected) ↔
      (ofMembers (membersOf document)).breakCycles.1 ≠ [] := by
  rw [warnings_of_resolveInheritance succeeds]
  constructor
  · rintro ⟨warning, listed, _⟩ idle
    rw [idle] at listed
    exact List.not_mem_nil listed
  · intro repaired
    obtain ⟨repair, listed⟩ := List.exists_mem_of_ne_nil _ repaired
    refine ⟨_, List.mem_map_of_mem listed, ?_⟩
    obtain ⟨_, _, _, related, told⟩ := document.tellsOf_repairWarning repair
    rw [told]
    rfl

/-- Resolution leaves no cycle, adds no inherited name and warns once for each edge that
it removes. -/
theorem resolveInheritance_leavesNoCycle
    (succeeds : document.resolveInheritance = .ok (resolved, warnings)) :
    ∃ declared rebuilt, build document = .ok declared ∧ build resolved = .ok rebuilt ∧
      LeavesNoCycle document resolved warnings declared rebuilt := by
  obtain ⟨rebuiltAcyclic, onlyDeclared⟩ := ofMembers_membersOf_resolved succeeds
  refine ⟨_, _, build_eq_ok_iff.mpr ⟨faultless_of_resolveInheritance succeeds, rfl⟩,
    build_eq_ok_iff.mpr ⟨faultless_resolved succeeds, rfl⟩, ?_⟩
  have distinct := document.namesDistinct_membersOf
  have injective := injective_nameOf_settled distinct
  have tells : List.Forall₂ document.TellsOf (removedNames (membersOf document)) warnings := by
    rw [warnings_of_resolveInheritance succeeds, removedNames, List.forall₂_map_left_iff,
      List.forall₂_map_right_iff, List.forall₂_same]
    exact fun repair _ => document.tellsOf_repairWarning repair
  exact {
    resolvedParents := by
      intro name cycle
      refine (acyclic_settled _).named injective name ?_
      exact TransGen.mono (fun _ _ => (resolvedEdge_iff succeeds).mp) _ _ cycle
    inherits := rebuiltAcyclic
    onlyDeclared := onlyDeclared
    warned := by
      rw [exists_cycleDetected_iff succeeds, ← backEdges_eq_nil_iff, ← edges_breakCycles,
        List.map_eq_nil_iff]
    oncePerEdge := by
      refine ⟨_, nodup_removedNames distinct, fun child parent => ?_, tells⟩
      rw [mem_removedNames distinct, resolvedEdge_iff succeeds] }

/-- What resolution makes of the tangled document. -/
def untangled : Document where
  dialect := .current
  entities := [
    .model { name := "Base", isDefault := true },
    .model { name := "A", inherits := ["C"], resolvedParents := ["C"] },
    .model { name := "B", resolvedParents := ["Base"] },
    .model { name := "C", inherits := ["B"], resolvedParents := ["B"] }]
  distinctNames := by decide

/-- The warnings on the tangled document. -/
def tangleWarnings : List Diagnostic :=
  [(Diagnostic.cycleDetected "B" "A" .unknown).withRelated .unknown
      "'B' now inherits from the default entity 'Base'",
    Diagnostic.cycleDetected "C" "C" .unknown]

theorem resolveInheritance_tangled :
    tangled.resolveInheritance = .ok (untangled, tangleWarnings) := by
  decide +kernel

/-- Two cycles through one member are broken, and there is a warning for each. -/
theorem tangled_leavesNoCycle :
    tangled.resolveInheritance = .ok (untangled, tangleWarnings) ∧
      ∃ declared rebuilt, build tangled = .ok declared ∧ build untangled = .ok rebuilt ∧
        LeavesNoCycle tangled untangled tangleWarnings declared rebuilt :=
  ⟨resolveInheritance_tangled, resolveInheritance_leavesNoCycle resolveInheritance_tangled⟩

end Document

end SchemaMarkup
