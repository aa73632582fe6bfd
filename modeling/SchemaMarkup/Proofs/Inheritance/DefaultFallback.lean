import SchemaMarkup.Proofs.Inheritance.Ancestry

/-!
# The default entity as a parent

Repair and fallback attach the default entity one member at a time, each time testing
the graph as the earlier attachments left it. `InheritanceGraph.withDefaultFor` gives it
to some members at once, testing the graph they all start from. The two agree, because an
attachment never adds to what the default entity leads to; that is
`reaches_withDefaultFor_iff`. So `withDefault` describes the parents that are left in the
end without any order of events.
-/

open Relation (ReflTransGen TransGen)

namespace SchemaMarkup.InheritanceGraph

variable {size : Nat} {graph : InheritanceGraph size}

/-- The default entity, if the graph lets the member have it as a further parent. -/
def defaultParents (graph : InheritanceGraph size) (member : Fin size) : List (Fin size) :=
  if graph.needsDefault member then (graph.attachable? member).toList else []

/-- The graph with the default entity as the last parent of those of the served members
that it lets have it. -/
def withDefaultFor (graph : InheritanceGraph size) (served : List (Fin size)) :
    InheritanceGraph size :=
  { graph with
    parents := Vector.ofFn fun member =>
      graph.parentsOf member ++ if member ∈ served then graph.defaultParents member else [] }

@[simp] theorem members_withDefaultFor (graph : InheritanceGraph size)
    (served : List (Fin size)) : (graph.withDefaultFor served).members = graph.members := rfl

@[simp] theorem default?_withDefaultFor (graph : InheritanceGraph size)
    (served : List (Fin size)) : (graph.withDefaultFor served).default? = graph.default? := rfl

theorem parentsOf_withDefaultFor (graph : InheritanceGraph size) (served : List (Fin size))
    (member : Fin size) :
    (graph.withDefaultFor served).parentsOf member =
      graph.parentsOf member ++ if member ∈ served then graph.defaultParents member else [] :=
  Vector.getElem_ofFn member.isLt

/-- Serving nobody changes nothing. -/
@[simp] theorem withDefaultFor_nil (graph : InheritanceGraph size) :
    graph.withDefaultFor [] = graph :=
  ext_parentsOf rfl fun member => by simp [parentsOf_withDefaultFor]

/-- It counts only who of those that can have the default entity is served. -/
theorem withDefaultFor_congr {served others : List (Fin size)}
    (same : ∀ member, graph.defaultParents member ≠ [] → (member ∈ served ↔ member ∈ others)) :
    graph.withDefaultFor served = graph.withDefaultFor others := by
  refine ext_parentsOf rfl fun member => ?_
  rw [parentsOf_withDefaultFor, parentsOf_withDefaultFor]
  by_cases useless : graph.defaultParents member = []
  · simp [useless]
  · simp [same member useless]

/-- Only the default entity is added to the parents of a member. -/
theorem edge_withDefaultFor {served : List (Fin size)} {child parent : Fin size} :
    (graph.withDefaultFor served).Edge child parent ↔
      graph.Edge child parent ∨ child ∈ served ∧ parent ∈ graph.defaultParents child := by
  rw [Edge, parentsOf_withDefaultFor, List.mem_append]
  refine or_congr_right ?_
  split <;> simp_all

/-! ## When a member can have the default entity -/

/-- Members that are no abstract models and have no model as a parent need the default
entity. -/
theorem needsDefault_iff {member : Fin size} :
    graph.needsDefault member = true ↔ (graph.members.get member).kind = .model ∧
      (graph.members.get member).isAbstract = false ∧
      ∀ parent ∈ graph.parentsOf member, (graph.members.get parent).kind ≠ .model := by
  simp [needsDefault, and_assoc]

/-- The default entity can become a parent of the members that it does not lead to. -/
theorem attachable?_eq_some_iff {member fallback : Fin size} :
    graph.attachable? member = some fallback ↔ graph.default? = some fallback ∧
      fallback ∉ graph.parentsOf member ∧ ¬ReflTransGen graph.Edge fallback member := by
  rw [attachable?, Option.filter_eq_some_iff, ← reaches_iff]
  simp only [Bool.and_eq_true, bne_iff_ne, Bool.not_eq_true', List.contains_eq_mem,
    decide_eq_false_iff_not, Bool.not_eq_true]
  constructor
  · rintro ⟨isDefault, ⟨_, absent⟩, unreached⟩
    exact ⟨isDefault, absent, unreached⟩
  · rintro ⟨isDefault, absent, unreached⟩
    refine ⟨isDefault, ⟨?_, absent⟩, unreached⟩
    rintro rfl
    have reached : graph.reaches member member = true := reaches_iff.mpr .refl
    rw [unreached] at reached
    contradiction

theorem mem_defaultParents {member fallback : Fin size} :
    fallback ∈ graph.defaultParents member ↔ graph.needsDefault member = true ∧
      graph.default? = some fallback ∧ fallback ∉ graph.parentsOf member ∧
      ¬ReflTransGen graph.Edge fallback member := by
  rw [defaultParents]
  split
  · next needs => simp [needs, attachable?_eq_some_iff]
  · next needs => simp [needs]

/-- There is only the default entity to be had. -/
theorem defaultParents_eq (member : Fin size) :
    graph.defaultParents member = [] ∨ graph.defaultParents member = graph.default?.toList := by
  rw [defaultParents]
  cases found : graph.attachable? member with
  | none => simp
  | some fallback =>
      rw [(attachable?_eq_some_iff.mp found).1]
      split
      · exact .inr rfl
      · exact .inl rfl

/-- A member that has the default entity as a parent is not given it. -/
theorem defaultParents_eq_nil {child fallback : Fin size}
    (isDefault : graph.default? = some fallback) (edge : graph.Edge child fallback) :
    graph.defaultParents child = [] := by
  rw [List.eq_nil_iff_forall_not_mem]
  intro other added
  obtain ⟨_, same, absent, _⟩ := mem_defaultParents.mp added
  obtain rfl := Option.some.inj (isDefault.symm.trans same)
  exact absent edge

/-- A member that can have the default entity is given just that. -/
theorem defaultParents_eq_singleton {child fallback : Fin size}
    (added : fallback ∈ graph.defaultParents child) : graph.defaultParents child = [fallback] := by
  have given : graph.defaultParents child = [] ∨
      graph.defaultParents child = graph.default?.toList := defaultParents_eq child
  rw [(mem_defaultParents.mp added).2.1] at given
  exact given.resolve_left (List.ne_nil_of_mem added)

/-- No member that had no parent twice has one twice when it is served. -/
theorem nodup_parentsOf_withDefaultFor {member : Fin size} (served : List (Fin size))
    (distinct : (graph.parentsOf member).Nodup) :
    ((graph.withDefaultFor served).parentsOf member).Nodup := by
  rw [parentsOf_withDefaultFor]
  split
  · refine List.nodup_append.mpr ⟨distinct, ?_, ?_⟩
    · rcases defaultParents_eq member with nothing | given
      · rw [nothing]
        exact List.nodup_nil
      · rw [given]
        cases graph.default? <;> simp
    · rintro _ declared fallback added rfl
      exact (mem_defaultParents.mp added).2.2.1 declared
  · simpa using distinct

/-- The default entity leads to the same members as before: a member that it led to was
not served. -/
theorem reaches_withDefaultFor_iff {served : List (Fin size)} {fallback member : Fin size}
    (isDefault : graph.default? = some fallback) :
    ReflTransGen (graph.withDefaultFor served).Edge fallback member ↔
      ReflTransGen graph.Edge fallback member := by
  constructor
  · intro path
    induction path with
    | refl => exact .refl
    | tail _ edge inductionHypothesis =>
        rcases edge_withDefaultFor.mp edge with declared | ⟨_, added⟩
        · exact inductionHypothesis.tail declared
        · obtain ⟨_, same, _, unreached⟩ := mem_defaultParents.mp added
          obtain rfl := Option.some.inj (isDefault.symm.trans same)
          exact absurd inductionHypothesis unreached
  · exact ReflTransGen.mono (fun _ _ edge => edge_withDefaultFor.mpr (.inl edge)) _ _

/-- A path is one of the graph before members were served, or it passes over an added edge. -/
theorem path_withDefaultFor {served : List (Fin size)} {start finish : Fin size}
    (path : ReflTransGen (graph.withDefaultFor served).Edge start finish) :
    ReflTransGen graph.Edge start finish ∨ ∃ child, ∃ fallback ∈ graph.defaultParents child,
      ReflTransGen (graph.withDefaultFor served).Edge start child ∧
        ReflTransGen (graph.withDefaultFor served).Edge fallback finish := by
  induction path with
  | refl => exact .inl .refl
  | @tail middle finish before edge inductionHypothesis =>
      rcases inductionHypothesis with path | ⟨child, fallback, added, first, second⟩
      · rcases edge_withDefaultFor.mp edge with declared | ⟨_, added⟩
        · exact .inl (path.tail declared)
        · exact .inr ⟨middle, finish, added, before, .refl⟩
      · exact .inr ⟨child, fallback, added, first, second.tail edge⟩

/-- An edge that is led back to was one before members were served, and was led back to. -/
theorem cycle_withDefaultFor {served : List (Fin size)} {child parent : Fin size}
    (edge : (graph.withDefaultFor served).Edge child parent)
    (path : ReflTransGen (graph.withDefaultFor served).Edge parent child) :
    graph.Edge child parent ∧ ReflTransGen graph.Edge parent child := by
  -- An added edge starts at a member that the default entity does not lead to.
  have noReturn : ∀ start, ∀ fallback ∈ graph.defaultParents start,
      ¬ReflTransGen (graph.withDefaultFor served).Edge fallback start := by
    intro start fallback added back
    obtain ⟨_, isDefault, _, unreached⟩ := mem_defaultParents.mp added
    exact unreached ((reaches_withDefaultFor_iff isDefault).mp back)
  constructor
  · rcases edge_withDefaultFor.mp edge with declared | ⟨_, added⟩
    · exact declared
    · exact absurd path (noReturn child parent added)
  · rcases path_withDefaultFor path with before | ⟨start, fallback, added, first, second⟩
    · exact before
    · exact absurd (second.trans (first.head edge)) (noReturn start fallback added)

/-- Serving members closes no cycle. -/
theorem Acyclic.withDefaultFor (acyclic : graph.Acyclic) (served : List (Fin size)) :
    (graph.withDefaultFor served).Acyclic := by
  intro member cycle
  obtain ⟨parent, edge, path⟩ := TransGen.head'_iff.mp cycle
  obtain ⟨declared, back⟩ := cycle_withDefaultFor edge path
  exact acyclic.not_reaches declared back

/-! ## One attachment -/

/-- Who needs the default entity among served members needed it before. -/
theorem needsDefault_of_withDefaultFor {member : Fin size} {served : List (Fin size)}
    (needs : (graph.withDefaultFor served).needsDefault member = true) :
    graph.needsDefault member = true := by
  simp only [needsDefault, Bool.and_eq_true, Bool.not_eq_true', List.any_eq_false] at needs ⊢
  exact ⟨needs.1, fun parent declared => needs.2 parent (edge_withDefaultFor.mpr (.inl declared))⟩

/-- Who was not served needs the default entity as before. -/
theorem needsDefault_withDefaultFor {member : Fin size} {served : List (Fin size)}
    (unserved : member ∉ served) :
    (graph.withDefaultFor served).needsDefault member = graph.needsDefault member := by
  simp [needsDefault, parentsOf_withDefaultFor, unserved]

/-- A member that was served gets nothing more, and any other gets what the first graph
lets it have. -/
theorem attachDefault?_withDefaultFor {member : Fin size} (served : List (Fin size))
    (needs : graph.needsDefault member = true) :
    (graph.withDefaultFor served).attachDefault? member =
      if member ∉ served ∧ graph.defaultParents member ≠ [] then
        some (graph.withDefaultFor (served ++ [member]))
      else none := by
  have offered : graph.defaultParents member = (graph.attachable? member).toList := by
    rw [defaultParents, if_pos needs]
  by_cases isServed : member ∈ served
  · rw [if_neg (by simp [isServed]), attachDefault?, Option.map_eq_none_iff,
      Option.eq_none_iff_forall_ne_some]
    intro fallback attachable
    obtain ⟨isDefault, absent, unreached⟩ := attachable?_eq_some_iff.mp attachable
    rw [default?_withDefaultFor] at isDefault
    rw [reaches_withDefaultFor_iff isDefault] at unreached
    rw [parentsOf_withDefaultFor, if_pos isServed, List.mem_append, not_or] at absent
    exact absent.2 (mem_defaultParents.mpr ⟨needs, isDefault, absent.1, unreached⟩)
  · have parents : (graph.withDefaultFor served).parentsOf member = graph.parentsOf member := by
      simp [parentsOf_withDefaultFor, isServed]
    have attachable : (graph.withDefaultFor served).attachable? member =
        graph.attachable? member := by
      ext fallback
      rw [attachable?_eq_some_iff, attachable?_eq_some_iff, parents]
      exact and_congr_right fun isDefault =>
        and_congr_right fun _ => not_congr (reaches_withDefaultFor_iff isDefault)
    rw [attachDefault?, attachable, offered]
    cases found : graph.attachable? member with
    | none => simp
    | some fallback =>
        have fits : member ∉ served ∧ (some fallback).toList ≠ [] := ⟨isServed, by simp⟩
        rw [if_pos fits, Option.map_some, parents]
        congr 1
        refine ext_parentsOf rfl fun child => ?_
        rw [parentsOf_setParents, parentsOf_withDefaultFor, parentsOf_withDefaultFor]
        by_cases same : child = member
        · rw [if_pos same, same, if_pos (by simp), offered, found]
          rfl
        · rw [if_neg same]
          simp [same]

/-- Serving a member that was served, or that cannot be, changes nothing. -/
theorem withDefaultFor_append_of_idle {member : Fin size} {served : List (Fin size)}
    (idle : ¬(member ∉ served ∧ graph.defaultParents member ≠ [])) :
    graph.withDefaultFor (served ++ [member]) = graph.withDefaultFor served := by
  refine withDefaultFor_congr fun other useful => ?_
  rw [List.mem_append, List.mem_singleton]
  refine ⟨?_, .inl⟩
  rintro (isServed | rfl)
  · exact isServed
  · by_contra unserved
    exact idle ⟨unserved, useful⟩

/-! ## Runs of attachments -/

/-- Going through members that need the default entity serves all of them. -/
theorem attachAll_withDefaultFor {members : List (Fin size)} (served : List (Fin size))
    (needs : ∀ member ∈ members, graph.needsDefault member = true) :
    ((graph.withDefaultFor served).attachAll members).2 =
      graph.withDefaultFor (served ++ members) := by
  induction members generalizing served with
  | nil => simp [attachAll]
  | cons member later inductionHypothesis =>
      obtain ⟨needsFirst, needsLater⟩ := List.forall_mem_cons.mp needs
      have rest := inductionHypothesis (served ++ [member]) needsLater
      rw [List.append_assoc, List.singleton_append] at rest
      rw [attachAll, attachDefault?_withDefaultFor served needsFirst, ← rest]
      split_ifs with useful
      · rfl
      · rw [withDefaultFor_append_of_idle useful]

/-- The test that repair makes for the child of each edge comes to serving the child. -/
theorem attach_of_needs (member : Fin size) (served : List (Fin size)) :
    (if (graph.withDefaultFor served).needsDefault member then
      (graph.withDefaultFor served).attachDefault? member else none) =
      if member ∉ served ∧ graph.defaultParents member ≠ [] then
        some (graph.withDefaultFor (served ++ [member]))
      else none := by
  by_cases needs : (graph.withDefaultFor served).needsDefault member = true
  · rw [if_pos needs]
    exact attachDefault?_withDefaultFor served (needsDefault_of_withDefaultFor needs)
  · rw [if_neg needs, if_neg]
    rintro ⟨unserved, useful⟩
    rw [needsDefault_withDefaultFor unserved] at needs
    exact useful (by simp [defaultParents, needs])

/-- Going through removed edges serves their children. -/
theorem reattach_withDefaultFor (graph : InheritanceGraph size)
    (edges : List (Fin size × Fin size)) (served : List (Fin size)) :
    ((graph.withDefaultFor served).reattach edges).2 =
      graph.withDefaultFor (served ++ edges.map Prod.fst) := by
  induction edges generalizing served with
  | nil => simp [reattach]
  | cons edge later inductionHypothesis =>
      have rest := inductionHypothesis (served ++ [edge.1])
      rw [List.append_assoc, List.singleton_append] at rest
      rw [reattach, attach_of_needs, List.map_cons, ← rest]
      split_ifs with useful
      · rfl
      · rw [withDefaultFor_append_of_idle useful]

/-- The repairs of a child that are marked stand for what the child got. -/
theorem marks_reattach (graph : InheritanceGraph size) (edges : List (Fin size × Fin size))
    (served : List (Fin size)) (child : Fin size) :
    ((((graph.withDefaultFor served).reattach edges).1.filter fun repair =>
        repair.child = child && repair.isReattached).flatMap fun _ => graph.default?.toList) =
      if child ∈ edges.map Prod.fst ∧ child ∉ served then graph.defaultParents child else [] := by
  induction edges generalizing served with
  | nil => simp [reattach]
  | cons edge later inductionHypothesis =>
      rw [reattach, attach_of_needs]
      by_cases useful : edge.1 ∉ served ∧ graph.defaultParents edge.1 ≠ []
      · have rest := inductionHypothesis (served ++ [edge.1])
        have given := (defaultParents_eq edge.1).resolve_left useful.2
        rw [if_pos useful]
        by_cases same : edge.1 = child
        · subst same
          simp only [List.mem_append, List.mem_singleton, or_true, not_true_eq_false, and_false,
            if_false] at rest
          simp [rest, given, useful.1]
        · simp only [List.mem_append, List.mem_singleton, Ne.symm same, or_false] at rest
          simp [rest, same, Ne.symm same]
      · rw [if_neg useful]
        have rest := inductionHypothesis served
        by_cases same : edge.1 = child
        · subst same
          have nothing : edge.1 ∉ served → graph.defaultParents edge.1 = [] := by
            intro unserved
            by_contra some
            exact useful ⟨unserved, some⟩
          simp only [List.mem_map] at rest
          simp only [List.filter_cons, Bool.and_false, Bool.false_eq_true, if_false, rest]
          split_ifs <;> simp_all
        · simp [rest, Ne.symm same]

/-- The graph with the default entity as the last parent of every member that it lets
have it. -/
def withDefault (graph : InheritanceGraph size) : InheritanceGraph size :=
  graph.withDefaultFor (List.finRange size)

@[simp] theorem members_withDefault (graph : InheritanceGraph size) :
    graph.withDefault.members = graph.members := rfl

@[simp] theorem default?_withDefault (graph : InheritanceGraph size) :
    graph.withDefault.default? = graph.default? := rfl

theorem parentsOf_withDefault (graph : InheritanceGraph size) (member : Fin size) :
    graph.withDefault.parentsOf member = graph.parentsOf member ++ graph.defaultParents member := by
  simp [withDefault, parentsOf_withDefaultFor]

/-- Whoever was served before, the fallback serves all that still need it. -/
theorem applyDefaultFallback_withDefaultFor (served : List (Fin size)) :
    (graph.withDefaultFor served).applyDefaultFallback.2 = graph.withDefault := by
  have needs : ∀ member ∈ (List.finRange size).filter (graph.withDefaultFor served).needsDefault,
      graph.needsDefault member = true :=
    fun _ listed => needsDefault_of_withDefaultFor (List.mem_filter.mp listed).2
  rw [applyDefaultFallback, attachAll_withDefaultFor served needs, withDefault]
  refine withDefaultFor_congr fun member useful => ?_
  simp only [List.mem_append, List.mem_filter, List.mem_finRange, true_and, iff_true]
  by_cases isServed : member ∈ served
  · exact .inl isServed
  · right
    rw [needsDefault_withDefaultFor isServed]
    by_contra needless
    exact useful (by simp [defaultParents, needless])

end SchemaMarkup.InheritanceGraph
