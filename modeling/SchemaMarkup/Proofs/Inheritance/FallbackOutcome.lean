import SchemaMarkup.Proofs.Inheritance.CycleRepair

/-!
# The outcome of the fallback

The fallback tests each candidate against the graph as the earlier attachments left it.
`InheritanceGraph.Admits` says when a member can have the default entity, of the graph
before the call alone, and `InheritanceGraph.GivesDefault` what the call then does: whoever
admits the default entity has it as the last parent, in whatever order the candidates come,
and nothing else changes. Since an attachment never lets another one in or out, the
attachments that repair makes are those that the fallback would make anyway.
-/

open Relation (ReflTransGen TransGen)

namespace SchemaMarkup.InheritanceGraph

variable {size : Nat} {graph : InheritanceGraph size}

/-- A member can have the default entity as a further parent. -/
structure Admits (graph : InheritanceGraph size) (member fallback : Fin size) : Prop where
  isDefault : graph.default? = some fallback
  isModel : (graph.members.get member).kind = .model
  isConcrete : (graph.members.get member).isAbstract = false
  noModelParent : ∀ parent ∈ graph.parentsOf member, (graph.members.get parent).kind ≠ .model
  isOther : member ≠ fallback
  isNew : fallback ∉ graph.parentsOf member
  /-- The default entity does not inherit from the member. -/
  unreached : ¬ReflTransGen graph.Edge fallback member

/-- Members admit what the search finds for them. -/
theorem admits_iff {member fallback : Fin size} :
    graph.Admits member fallback ↔ fallback ∈ graph.defaultParents member := by
  rw [mem_defaultParents, needsDefault_iff]
  constructor
  · intro admits
    exact ⟨⟨admits.isModel, admits.isConcrete, admits.noModelParent⟩, admits.isDefault,
      admits.isNew, admits.unreached⟩
  · rintro ⟨⟨isModel, isConcrete, noModelParent⟩, isDefault, isNew, unreached⟩
    exact {
      isDefault, isModel, isConcrete, noModelParent, isNew, unreached
      isOther := by
        rintro rfl
        exact unreached .refl }

/-- Candidates that were not served yet are served if they admit the default entity. -/
theorem attachAll_withDefaultFor_fst {candidates : List (Fin size)} (served : List (Fin size))
    (needs : ∀ member ∈ candidates, graph.needsDefault member = true)
    (distinct : candidates.Nodup) (unserved : ∀ member ∈ candidates, member ∉ served) :
    ((graph.withDefaultFor served).attachAll candidates).1 =
      candidates.filter fun member => graph.defaultParents member ≠ [] := by
  induction candidates generalizing served with
  | nil => rfl
  | cons member later inductionHypothesis =>
      obtain ⟨needsFirst, needsLater⟩ := List.forall_mem_cons.mp needs
      obtain ⟨absent, distinctLater⟩ := List.nodup_cons.mp distinct
      obtain ⟨unservedFirst, unservedLater⟩ := List.forall_mem_cons.mp unserved
      rw [attachAll, attachDefault?_withDefaultFor served needsFirst, List.filter_cons]
      by_cases useful : graph.defaultParents member ≠ []
      · have stillUnserved : ∀ other ∈ later, other ∉ served ++ [member] := by
          intro other listed known
          rcases List.mem_append.mp known with before | isMember
          · exact unservedLater other listed before
          · exact absent (List.mem_singleton.mp isMember ▸ listed)
        rw [if_pos ⟨unservedFirst, useful⟩, if_pos (by simpa using useful),
          ← inductionHypothesis (served ++ [member]) needsLater distinctLater stillUnserved]
      · rw [if_neg fun both => useful both.2, if_neg (by simpa using useful)]
        exact inductionHypothesis served needsLater distinctLater unservedLater

/-- Whoever takes the candidates in some order gives the default entity to those that admit
it, in that order. -/
theorem attachAll_eq {order : List (Fin size)}
    (same : order.Perm ((List.finRange size).filter graph.needsDefault)) :
    graph.attachAll order =
      (order.filter fun member => graph.defaultParents member ≠ [], graph.withDefault) := by
  have needs : ∀ member ∈ order, graph.needsDefault member = true :=
    fun member listed => (List.mem_filter.mp (same.mem_iff.mp listed)).2
  have distinct : order.Nodup := same.nodup_iff.mpr ((List.nodup_finRange size).filter _)
  have attached := attachAll_withDefaultFor_fst [] needs distinct (by simp)
  have final := attachAll_withDefaultFor [] needs
  rw [withDefaultFor_nil] at attached final
  refine Prod.ext attached (final.trans ?_)
  rw [List.nil_append, withDefault]
  refine withDefaultFor_congr fun member useful => ?_
  simp only [List.mem_finRange, iff_true]
  rw [same.mem_iff, List.mem_filter]
  refine ⟨List.mem_finRange member, ?_⟩
  by_contra needless
  exact useful (by simp [defaultParents, needless])

/-- The fallback takes the candidates in the order of the members. -/
theorem applyDefaultFallback_eq (graph : InheritanceGraph size) :
    graph.applyDefaultFallback =
      (((List.finRange size).filter graph.needsDefault).filter
        fun member => graph.defaultParents member ≠ [], graph.withDefault) :=
  attachAll_eq (.refl _)

/-- The candidates that the fallback serves are the members that admit the default entity. -/
theorem mem_candidates_iff {member : Fin size} :
    member ∈ ((List.finRange size).filter graph.needsDefault).filter
        (fun member => graph.defaultParents member ≠ []) ↔
      ∃ fallback, graph.Admits member fallback := by
  simp only [List.mem_filter, List.mem_finRange, true_and, decide_eq_true_eq, admits_iff]
  constructor
  · rintro ⟨_, useful⟩
    exact List.exists_mem_of_ne_nil _ useful
  · rintro ⟨fallback, added⟩
    exact ⟨(mem_defaultParents.mp added).1, List.ne_nil_of_mem added⟩

/-- Nobody admits the default entity once all who did have it. -/
theorem defaultParents_withDefault (graph : InheritanceGraph size) (member : Fin size) :
    graph.withDefault.defaultParents member = [] := by
  rw [List.eq_nil_iff_forall_not_mem]
  intro fallback added
  obtain ⟨needs, isDefault, isNew, unreached⟩ := mem_defaultParents.mp added
  rw [parentsOf_withDefault, List.mem_append, not_or] at isNew
  rw [default?_withDefault] at isDefault
  rw [withDefault, reaches_withDefaultFor_iff isDefault] at unreached
  exact isNew.2 (mem_defaultParents.mpr
    ⟨needsDefault_of_withDefaultFor needs, isDefault, isNew.1, unreached⟩)

/-- After the fallback nothing is left to do for a second one. -/
theorem applyDefaultFallback_withDefault (graph : InheritanceGraph size) :
    graph.withDefault.applyDefaultFallback = ([], graph.withDefault) := by
  have idle : graph.withDefault.withDefault = graph.withDefault :=
    ext_parentsOf rfl fun member => by
      rw [parentsOf_withDefault graph.withDefault, defaultParents_withDefault, List.append_nil]
  rw [applyDefaultFallback_eq, idle]
  simp [defaultParents_withDefault]

/-- Some members of a graph are given the default entity, and this makes another graph. -/
structure GivesDefault (graph : InheritanceGraph size) (served : List (Fin size))
    (final : InheritanceGraph size) : Prop where
  members : final.members = graph.members
  /-- Those members are served that admit the default entity, each once. -/
  admitted : ∀ member, member ∈ served ↔ ∃ fallback, graph.Admits member fallback
  distinct : served.Nodup
  /-- They have it as their last parent. -/
  appended : ∀ member fallback, graph.Admits member fallback →
    final.parentsOf member = graph.parentsOf member ++ [fallback]
  /-- All others have the parents that they had. -/
  kept : ∀ member, member ∉ served → final.parentsOf member = graph.parentsOf member
  /-- Whatever order the candidates are taken in, the same members come to the same parents. -/
  anyOrder : ∀ order, order.Perm ((List.finRange size).filter graph.needsDefault) →
    (graph.attachAll order).1.Perm served ∧ (graph.attachAll order).2 = final
  /-- Every cycle was there before: its edges were, and were led back to. -/
  cycles : ∀ child parent, final.Edge child parent → ReflTransGen final.Edge parent child →
    graph.Edge child parent ∧ ReflTransGen graph.Edge parent child
  /-- A second call serves nobody. -/
  again : final.applyDefaultFallback = ([], final)

/-- The fallback gives the default entity to whoever admits it. After a repair it comes to the
parents that it would come to if repair had only removed edges. -/
theorem applyDefaultFallback_givesDefault (graph : InheritanceGraph size) :
    GivesDefault graph graph.applyDefaultFallback.1 graph.applyDefaultFallback.2 ∧
      graph.breakCycles.2.applyDefaultFallback.2 =
        (graph.removeEdges (graph.breakCycles.1.map Repair.edge)).applyDefaultFallback.2 := by
  constructor
  · rw [applyDefaultFallback_eq]
    exact {
      members := rfl
      admitted := fun member => mem_candidates_iff
      distinct := ((List.nodup_finRange size).filter _).filter _
      appended := fun member fallback admits => by
        rw [parentsOf_withDefault, defaultParents_eq_singleton (admits_iff.mp admits)]
      kept := fun member unserved => by
        have nothing : graph.defaultParents member = [] := by
          rw [List.eq_nil_iff_forall_not_mem]
          intro fallback added
          exact unserved (mem_candidates_iff.mpr ⟨fallback, admits_iff.mpr added⟩)
        rw [parentsOf_withDefault, nothing, List.append_nil]
      anyOrder := fun order same => by
        rw [attachAll_eq same]
        exact ⟨same.filter _, rfl⟩
      cycles := fun _ _ edge path => cycle_withDefaultFor edge path
      again := applyDefaultFallback_withDefault graph }
  · rw [applyDefaultFallback_breakCycles, edges_breakCycles, applyDefaultFallback_eq]

end SchemaMarkup.InheritanceGraph
