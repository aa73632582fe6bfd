import SchemaMarkup.Inheritance.Repair
import SchemaMarkup.Proofs.Inheritance.DepthFirst

/-!
# Ancestry in an inheritance graph

`InheritanceGraph.Edge` is the relation that the lists of parents stand for, and
`InheritanceGraph.Acyclic` says that no member leads back to itself. The search
`InheritanceGraph.reaches` decides reachability, and the walk over all members finds no
back edge exactly when the graph is acyclic: without its back edges every graph is.
-/

open Relation (ReflTransGen TransGen)

namespace SchemaMarkup.InheritanceGraph

variable {size : Nat} {graph other : InheritanceGraph size}

/-- One member has another among its parents. -/
def Edge (graph : InheritanceGraph size) (child parent : Fin size) : Prop :=
  parent ∈ graph.parentsOf child

/-- No member is one of its own ancestors. -/
def Acyclic (graph : InheritanceGraph size) : Prop :=
  ∀ member, ¬TransGen graph.Edge member member

/-- Graphs with the same members and the same parents are equal. -/
theorem ext_parentsOf (members : graph.members = other.members)
    (parents : ∀ member, graph.parentsOf member = other.parentsOf member) : graph = other := by
  obtain ⟨graphMembers, graphParents⟩ := graph
  obtain ⟨otherMembers, otherParents⟩ := other
  obtain rfl : graphMembers = otherMembers := members
  have same : graphParents = otherParents := by
    ext1 place bounded
    exact parents ⟨place, bounded⟩
  rw [same]

@[simp] theorem members_setParents (graph : InheritanceGraph size) (member : Fin size)
    (parents : List (Fin size)) : (graph.setParents member parents).members = graph.members := rfl

/-- Only the one member has other parents. -/
theorem parentsOf_setParents (graph : InheritanceGraph size) (member : Fin size)
    (parents : List (Fin size)) (child : Fin size) :
    (graph.setParents member parents).parentsOf child =
      if child = member then parents else graph.parentsOf child := by
  have set : (graph.parents.set member parents).get child =
      if member.val = child.val then parents else graph.parents.get child :=
    Vector.getElem_set member.isLt child.isLt
  by_cases same : child = member
  · rw [if_pos same]
    exact set.trans (if_pos (congrArg Fin.val same.symm))
  · rw [if_neg same]
    exact set.trans (if_neg fun alike => same (Fin.ext alike.symm))

@[simp] theorem members_removeEdges (graph : InheritanceGraph size)
    (edges : List (Fin size × Fin size)) : (graph.removeEdges edges).members = graph.members := rfl

@[simp] theorem parentsOf_removeEdges (graph : InheritanceGraph size)
    (edges : List (Fin size × Fin size)) (child : Fin size) :
    (graph.removeEdges edges).parentsOf child =
      (graph.parentsOf child).filter fun parent => !edges.contains (child, parent) :=
  Vector.getElem_ofFn child.isLt

/-! ## Acyclic graphs -/

/-- A graph with no edges but those of an acyclic graph is acyclic. -/
theorem Acyclic.mono (acyclic : graph.Acyclic)
    (fewer : ∀ child parent, other.Edge child parent → graph.Edge child parent) :
    other.Acyclic :=
  fun member cycle => acyclic member (TransGen.mono fewer _ _ cycle)

/-- A graph is acyclic if every edge goes down in some ranking of the members. -/
theorem acyclic_of_rank (rank : Fin size → Nat)
    (descends : ∀ child parent, graph.Edge child parent → rank parent < rank child) :
    graph.Acyclic := by
  have lower : ∀ start finish, TransGen graph.Edge start finish → rank finish < rank start := by
    intro start finish path
    induction path with
    | single edge => exact descends _ _ edge
    | tail _ edge inductionHypothesis => exact (descends _ _ edge).trans inductionHypothesis
  exact fun member cycle => lt_irrefl _ (lower member member cycle)

/-- In an acyclic graph no edge leads back to where it is reached from. -/
theorem Acyclic.not_reaches (acyclic : graph.Acyclic) {child parent : Fin size}
    (edge : graph.Edge child parent) : ¬ReflTransGen graph.Edge parent child :=
  fun path => acyclic child (.head' edge path)

/-! ## The searches -/

/-- The search finds exactly the members that are reached over edges. -/
theorem reaches_iff {member ancestor : Fin size} :
    graph.reaches member ancestor = true ↔ ReflTransGen graph.Edge member ancestor := by
  rw [reaches, List.contains_iff_mem]
  exact Walk.mem_finished_startingAt

/-- Back edges are edges. -/
theorem edge_of_mem_backEdges {child parent : Fin size}
    (found : (child, parent) ∈ graph.backEdges) : graph.Edge child parent :=
  (Walk.mem_backEdges_all.mp found).1

theorem edge_removeEdges {edges : List (Fin size × Fin size)} {child parent : Fin size} :
    (graph.removeEdges edges).Edge child parent ↔
      graph.Edge child parent ∧ (child, parent) ∉ edges := by
  simp [Edge]

/-- Without the back edges of its walk a graph is acyclic. -/
theorem acyclic_removeEdges_backEdges (graph : InheritanceGraph size) :
    (graph.removeEdges graph.backEdges).Acyclic := by
  apply acyclic_of_rank (Walk.all graph.parentsOf).finished.idxOf
  intro child parent edge
  obtain ⟨declared, kept⟩ := edge_removeEdges.mp edge
  exact Walk.idxOf_finished_all_lt declared kept

/-- Even without the back edges, the target of a back edge leads to its source. -/
theorem backEdge_closes {child parent : Fin size} (found : (child, parent) ∈ graph.backEdges) :
    ReflTransGen (graph.removeEdges graph.backEdges).Edge parent child :=
  ReflTransGen.mono (fun _ _ kept => edge_removeEdges.mpr kept) _ _
    (Walk.backEdge_all_closes found)

/-- The walk finds no back edge exactly when there is no cycle. -/
theorem backEdges_eq_nil_iff : graph.backEdges = [] ↔ graph.Acyclic := by
  constructor
  · intro none
    refine (acyclic_removeEdges_backEdges graph).mono fun child parent edge => ?_
    exact edge_removeEdges.mpr ⟨edge, by simp [none]⟩
  · intro acyclic
    rw [List.eq_nil_iff_forall_not_mem]
    rintro ⟨child, parent⟩ found
    refine acyclic.not_reaches (edge_of_mem_backEdges found) ?_
    exact ReflTransGen.mono (fun _ _ kept => (edge_removeEdges.mp kept).1) _ _
      (backEdge_closes found)

/-- Taking no edges out changes nothing. -/
@[simp] theorem removeEdges_nil (graph : InheritanceGraph size) : graph.removeEdges [] = graph :=
  ext_parentsOf rfl fun _ => by simp

end SchemaMarkup.InheritanceGraph
