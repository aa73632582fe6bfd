import SchemaMarkup.Proofs.Inheritance.Building
import SchemaMarkup.Proofs.Inheritance.DefaultFallback

/-!
# Cycle repair

`Repair.IsMinimal` says what a repair of a graph may do: take out edges each of which
would close a cycle if it were put back, and give the default entity to children of such
edges. `breakCycles_isMinimal` shows that repair does no more on the graph of any
document, and that it leaves a graph without cycles alone.
-/

open Relation (ReflTransGen TransGen)

namespace SchemaMarkup

variable {size : Nat}

namespace Repair

/-- The edge that was taken out, from the child to its former parent. -/
def edge (repair : Repair size) : Fin size × Fin size :=
  (repair.child, repair.removedParent)

/-- Repairs turn one graph into another and take out no edge in vain. -/
structure IsMinimal (graph : InheritanceGraph size) (repairs : List (Repair size))
    (repaired : InheritanceGraph size) : Prop where
  members : repaired.members = graph.members
  /-- A member keeps its parents in order, except for those that a repair took from it,
  and has the default entity as its last parent for a repair that is marked. -/
  parents : ∀ child, repaired.parentsOf child =
    (graph.parentsOf child).filter (fun parent => (child, parent) ∉ repairs.map edge) ++
      (repairs.filter fun repair => repair.child = child && repair.isReattached).flatMap
        fun _ => graph.default?.toList
  /-- No member has a parent twice, before or after. -/
  distinctParents : ∀ child, (graph.parentsOf child).Nodup ∧ (repaired.parentsOf child).Nodup
  /-- Only declared edges are taken out. -/
  declared : ∀ repair ∈ repairs, graph.Edge repair.child repair.removedParent
  /-- Each edge is taken out once. -/
  distinctEdges : (repairs.map edge).Nodup
  /-- The removed parent still leads to the child. -/
  closes : ∀ repair ∈ repairs,
    ReflTransGen repaired.Edge repair.removedParent repair.child
  /-- Putting one edge back closes a cycle. -/
  needed : ∀ repair ∈ repairs,
    ¬(repaired.setParents repair.child
      (repaired.parentsOf repair.child ++ [repair.removedParent])).Acyclic
  /-- Where there is no cycle nothing is done. -/
  idle : graph.Acyclic → repairs = [] ∧ repaired = graph

end Repair

namespace InheritanceGraph

variable {graph : InheritanceGraph size}

/-- Each removed edge has its repair, in order. -/
theorem edges_reattach (graph : InheritanceGraph size) (edges : List (Fin size × Fin size)) :
    (graph.reattach edges).1.map Repair.edge = edges := by
  induction edges generalizing graph with
  | nil => rfl
  | cons edge later inductionHypothesis =>
      rw [reattach]
      split <;> simp [Repair.edge, inductionHypothesis]

/-- The repairs are those of the back edges. -/
@[simp] theorem edges_breakCycles (graph : InheritanceGraph size) :
    graph.breakCycles.1.map Repair.edge = graph.backEdges :=
  edges_reattach _ _

/-- Where there is no cycle nothing is repaired. -/
theorem Acyclic.breakCycles (acyclic : graph.Acyclic) :
    graph.breakCycles.1 = [] := by
  rw [← List.map_eq_nil_iff, edges_breakCycles]
  exact backEdges_eq_nil_iff.mpr acyclic

/-- Repair takes out the back edges and serves their children. -/
theorem breakCycles_snd (graph : InheritanceGraph size) :
    graph.breakCycles.2 = (graph.removeEdges graph.backEdges).withDefaultFor
      (graph.backEdges.map Prod.fst) := by
  have served := reattach_withDefaultFor (graph.removeEdges graph.backEdges) graph.backEdges []
  rwa [withDefaultFor_nil, List.nil_append] at served

/-- What repair and fallback make of a graph: the back edges go, and then every member
that can have the default entity gets it. -/
theorem applyDefaultFallback_breakCycles (graph : InheritanceGraph size) :
    graph.breakCycles.2.applyDefaultFallback.2 =
      (graph.removeEdges graph.backEdges).withDefault := by
  rw [breakCycles_snd, applyDefaultFallback_withDefaultFor]

/-- The parents after repair, told from the repairs. -/
theorem parentsOf_breakCycles (graph : InheritanceGraph size) (child : Fin size) :
    graph.breakCycles.2.parentsOf child =
      (graph.parentsOf child).filter
          (fun parent => (child, parent) ∉ graph.breakCycles.1.map Repair.edge) ++
        (graph.breakCycles.1.filter fun repair =>
          repair.child = child && repair.isReattached).flatMap fun _ => graph.default?.toList := by
  have marks := marks_reattach (graph.removeEdges graph.backEdges) graph.backEdges [] child
  simp only [withDefaultFor_nil, List.not_mem_nil, not_false_eq_true, and_true] at marks
  have sameDefault : (graph.removeEdges graph.backEdges).default? = graph.default? := rfl
  rw [sameDefault] at marks
  rw [edges_breakCycles, breakCycles_snd, parentsOf_withDefaultFor, parentsOf_removeEdges,
    breakCycles, marks]
  congr 1
  exact List.filter_congr fun parent _ => by simp

/-- An edge that leads back from where it is put in closes a cycle. -/
theorem not_acyclic_setParents {child parent : Fin size}
    (path : ReflTransGen graph.Edge parent child) :
    ¬(graph.setParents child (graph.parentsOf child ++ [parent])).Acyclic := by
  intro acyclic
  have more : ∀ start finish, graph.Edge start finish →
      (graph.setParents child (graph.parentsOf child ++ [parent])).Edge start finish := by
    intro start finish declared
    rw [Edge, parentsOf_setParents]
    split
    · next same => exact List.mem_append_left _ (same ▸ declared)
    · exact declared
  have back : (graph.setParents child (graph.parentsOf child ++ [parent])).Edge child parent := by
    simp [Edge, parentsOf_setParents]
  exact acyclic.not_reaches back (ReflTransGen.mono more _ _ path)

/-- Repair of the graph of a document takes out no edge in vain. -/
theorem breakCycles_isMinimal {document : Document}
    {graph : InheritanceGraph document.models.length} (built : build document = .ok graph) :
    Repair.IsMinimal graph graph.breakCycles.1 graph.breakCycles.2 := by
  obtain ⟨_, rfl⟩ := build_eq_ok_iff.mp built
  have distinct := nodup_parentsOf_ofMembers (membersOf document)
  generalize ofMembers (membersOf document) = graph at *
  have backEdge : ∀ repair ∈ graph.breakCycles.1,
      (repair.child, repair.removedParent) ∈ graph.backEdges := by
    intro repair listed
    rw [← edges_breakCycles]
    exact List.mem_map_of_mem listed
  have closes : ∀ repair ∈ graph.breakCycles.1,
      ReflTransGen graph.breakCycles.2.Edge repair.removedParent repair.child := by
    intro repair listed
    rw [breakCycles_snd]
    exact ReflTransGen.mono (fun _ _ edge => edge_withDefaultFor.mpr (.inl edge)) _ _
      (backEdge_closes (backEdge repair listed))
  exact {
    members := by rw [breakCycles_snd]; rfl
    parents := parentsOf_breakCycles graph
    distinctParents := fun child => by
      refine ⟨distinct child, ?_⟩
      rw [breakCycles_snd]
      refine nodup_parentsOf_withDefaultFor _ ?_
      rw [parentsOf_removeEdges]
      exact (distinct child).filter _
    declared := fun repair listed => edge_of_mem_backEdges (backEdge repair listed)
    distinctEdges := by
      rw [edges_breakCycles]
      exact Walk.nodup_backEdges_all distinct
    closes := closes
    needed := fun repair listed => not_acyclic_setParents (closes repair listed)
    idle := fun acyclic => by
      have none := backEdges_eq_nil_iff.mpr acyclic
      simp [breakCycles, none, reattach] }

/-- A member of a longer cycle that also inherits from itself, next to a default entity. -/
def tangled : Document where
  dialect := .current
  entities := [
    .model { name := "Base", isDefault := true },
    .model { name := "A", inherits := ["C"] },
    .model { name := "B", inherits := ["a"] },
    .model { name := "C", inherits := ["B", "C"] }]
  distinctNames := by decide

/-- Both cycles are broken, and the default entity takes the place of one removed parent. -/
theorem breakCycles_tangled_isMinimal : ∃ graph, build tangled = .ok graph ∧
    graph.breakCycles.1.map (fun repair =>
      (graph.nameOf repair.child, graph.nameOf repair.removedParent, repair.isReattached)) =
        [("B", "A", true), ("C", "C", false)] ∧
    Repair.IsMinimal graph graph.breakCycles.1 graph.breakCycles.2 := by
  have built : build tangled = .ok (ofMembers (membersOf tangled)) :=
    build_eq_ok_iff.mpr ⟨by decide +kernel, rfl⟩
  exact ⟨_, built, by decide +kernel, breakCycles_isMinimal built⟩

end InheritanceGraph

end SchemaMarkup
