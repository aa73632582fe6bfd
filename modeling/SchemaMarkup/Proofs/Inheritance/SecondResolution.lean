import SchemaMarkup.Proofs.Inheritance.Acyclicity

/-!
# Resolving a second time

A resolved document is resolved again without an error and without a warning. It comes
out as it went in unless the first resolution struck, along with the name of a removed
parent, the name of a parent that the child keeps: that happens where the two differ only
in case. Such a parent is lost, but for a default entity that the fallback gives back;
`InheritanceGraph.Restores` says when it does.
-/

open Relation (ReflTransGen TransGen)

namespace SchemaMarkup

namespace InheritanceGraph

variable {size : Nat}

/-- Without the name of its last parent, the child would get it back as the default
entity. -/
structure Restores (graph : InheritanceGraph size) (child parent : Fin size) : Prop where
  isDefault : graph.default? = some parent
  isLast : (graph.parentsOf child).getLast? = some parent
  isModel : (graph.members.get child).kind = .model
  isConcrete : (graph.members.get child).isAbstract = false
  onlyModel : ∀ other ∈ graph.parentsOf child,
    (graph.members.get other).kind = .model → other = parent

/-! ## The graph of the second run -/

variable {members : Vector Model size}

theorem default?_rebuilt (members : Vector Model size) :
    (rebuilt members).default? = (kept members).default? := by
  have marks : (fun member : Fin size => ((rebuilt members).members.get member).isDefault) =
      fun member => ((kept members).members.get member).isDefault :=
    funext (isDefault_resolvedMembers members)
  rw [default?, default?, marks]

theorem needsDefault_rebuilt_iff {child : Fin size} :
    (rebuilt members).needsDefault child = true ↔ (members.get child).kind = .model ∧
      (members.get child).isAbstract = false ∧
      ∀ parent ∈ (rebuilt members).parentsOf child, (members.get parent).kind ≠ .model := by
  have kinds : ∀ member : Fin size,
      ((rebuilt members).members.get member).kind = (members.get member).kind :=
    kind_resolvedMembers members
  have marks : ((rebuilt members).members.get child).isAbstract = (members.get child).isAbstract :=
    isAbstract_resolvedMembers members child
  simp only [needsDefault_iff, kinds, marks]

/-- A parent that lost its name and is a parent again is restored. -/
theorem restores_of_parentsOf_eq {child parent : Fin size}
    (same : (rebuilt members).withDefault.parentsOf child = (settled members).parentsOf child)
    (edge : (kept members).Edge child parent)
    (struck : (ofMembers members).strikes child parent = true) :
    (settled members).Restores child parent := by
  have absent : parent ∉ (rebuilt members).parentsOf child := by
    intro left
    have spared := (edge_rebuilt.mp left).2
    rw [struck] at spared
    contradiction
  have isParent : parent ∈ (settled members).parentsOf child := by
    rw [settled_eq, parentsOf_withDefault]
    exact List.mem_append_left _ edge
  have added : parent ∈ (rebuilt members).defaultParents child := by
    rw [← same, parentsOf_withDefault] at isParent
    exact (List.mem_append.mp isParent).resolve_left absent
  rw [parentsOf_withDefault, defaultParents_eq_singleton added] at same
  obtain ⟨needs, isDefault, _, _⟩ := mem_defaultParents.mp added
  obtain ⟨isModel, isConcrete, noModel⟩ := needsDefault_rebuilt_iff.mp needs
  exact {
    isDefault := by
      rw [settled_eq, default?_withDefault, ← default?_rebuilt]
      exact isDefault
    isLast := by rw [← same, List.getLast?_concat]
    isModel := by rwa [members_settled]
    isConcrete := by rwa [members_settled]
    onlyModel := by
      intro other isParent otherModel
      rw [members_settled] at otherModel
      rw [← same] at isParent
      rcases List.mem_append.mp isParent with left | last
      · exact absurd otherModel (noModel other left)
      · exact List.mem_singleton.mp last }

/-- A parent that is restored is one again. -/
theorem parentsOf_eq_of_restores {child parent : Fin size}
    (edge : (kept members).Edge child parent)
    (struck : (ofMembers members).strikes child parent = true)
    (restored : ∀ parent, (kept members).Edge child parent →
      (ofMembers members).strikes child parent = true → (settled members).Restores child parent) :
    (rebuilt members).withDefault.parentsOf child = (settled members).parentsOf child := by
  have back := restored parent edge struck
  have isDefault : (kept members).default? = some parent := by
    rw [← default?_withDefault, ← settled_eq]
    exact back.isDefault
  have unchanged : (settled members).parentsOf child = (kept members).parentsOf child := by
    rw [settled_eq, parentsOf_withDefault, defaultParents_eq_nil isDefault edge, List.append_nil]
  obtain ⟨front, split⟩ := List.getLast?_eq_some_iff.mp (unchanged ▸ back.isLast)
  have apart : parent ∉ front := by
    have distinct := nodup_parentsOf_kept members child
    rw [split] at distinct
    intro listed
    exact (List.nodup_append.mp distinct).2.2 parent listed parent List.mem_cons_self rfl
  have left : (rebuilt members).parentsOf child = front := by
    have spared : front.filter (fun other => !(ofMembers members).strikes child other) = front := by
      rw [List.filter_eq_self]
      intro other listed
      rw [Bool.not_eq_true', ← Bool.not_eq_true]
      intro otherStruck
      have otherEdge : (kept members).Edge child other := by
        rw [Edge, split]
        exact List.mem_append_left _ listed
      have same := (restored other otherEdge otherStruck).isDefault.symm.trans back.isDefault
      exact apart (Option.some.inj same ▸ listed)
    rw [parentsOf_rebuilt, split, List.filter_append, spared]
    simp [struck]
  have added : parent ∈ (rebuilt members).defaultParents child := by
    refine mem_defaultParents.mpr ⟨?_, ?_, by rwa [left], ?_⟩
    · refine needsDefault_rebuilt_iff.mpr ⟨?_, ?_, ?_⟩
      · simpa only [members_settled] using back.isModel
      · simpa only [members_settled] using back.isConcrete
      · intro other listed otherModel
        rw [left] at listed
        have same := back.onlyModel other (by rw [unchanged, split]; simp [listed])
          (by rwa [members_settled])
        exact apart (same ▸ listed)
    · rw [default?_rebuilt]
      exact isDefault
    · intro path
      exact (acyclic_kept members).not_reaches edge
        (ReflTransGen.mono (fun _ _ edge => (edge_rebuilt.mp edge).1) _ _ path)
  rw [parentsOf_withDefault, left, defaultParents_eq_singleton added, unchanged, split]

/-- What the default entity leads to is left, if only it lost its name among parents: an
edge back to it would have closed a cycle. -/
theorem reaches_rebuilt_iff {fallback member : Fin size}
    (isDefault : (kept members).default? = some fallback)
    (restored : ∀ child parent, (kept members).Edge child parent →
      (ofMembers members).strikes child parent = true → (settled members).Restores child parent) :
    ReflTransGen (rebuilt members).Edge fallback member ↔
      ReflTransGen (kept members).Edge fallback member := by
  constructor
  · exact ReflTransGen.mono (fun _ _ edge => (edge_rebuilt.mp edge).1) _ _
  · intro path
    induction path with
    | refl => exact .refl
    | @tail child parent before edge inductionHypothesis =>
        refine inductionHypothesis.tail (edge_rebuilt.mpr ⟨edge, ?_⟩)
        rw [← Bool.not_eq_true]
        intro struck
        have same := (restored child parent edge struck).isDefault
        rw [settled_eq, default?_withDefault, isDefault] at same
        obtain rfl := Option.some.inj same
        exact (acyclic_kept members).not_reaches edge before

/-- A child that lost no name of a parent has the same parents again. -/
theorem parentsOf_eq_of_spared {child : Fin size}
    (spared : ∀ parent, (kept members).Edge child parent →
      (ofMembers members).strikes child parent = false)
    (restored : ∀ child parent, (kept members).Edge child parent →
      (ofMembers members).strikes child parent = true → (settled members).Restores child parent) :
    (rebuilt members).withDefault.parentsOf child = (settled members).parentsOf child := by
  have parents : (rebuilt members).parentsOf child = (kept members).parentsOf child := by
    rw [parentsOf_rebuilt, List.filter_eq_self]
    intro parent edge
    rw [spared parent edge]
    rfl
  have needs : (rebuilt members).needsDefault child = (kept members).needsDefault child := by
    rw [Bool.eq_iff_iff, needsDefault_rebuilt_iff, needsDefault_iff, parents]
    rfl
  have attachable : (rebuilt members).attachable? child = (kept members).attachable? child := by
    ext fallback
    rw [attachable?_eq_some_iff, attachable?_eq_some_iff, default?_rebuilt, parents]
    exact and_congr_right fun isDefault =>
      and_congr_right fun _ => not_congr (reaches_rebuilt_iff isDefault restored)
  rw [settled_eq, parentsOf_withDefault, parentsOf_withDefault, parents, defaultParents,
    defaultParents, needs, attachable]

/-- The second run comes to the same parents exactly when each parent that lost its name is
restored. -/
theorem parentsOf_again_iff :
    (∀ child, (rebuilt members).withDefault.parentsOf child = (settled members).parentsOf child) ↔
      ∀ child parent, (kept members).Edge child parent →
        (ofMembers members).strikes child parent = true →
        (settled members).Restores child parent := by
  constructor
  · intro same child parent edge struck
    exact restores_of_parentsOf_eq (same child) edge struck
  · intro restored child
    by_cases loses : ∃ parent, (kept members).Edge child parent ∧
        (ofMembers members).strikes child parent = true
    · obtain ⟨parent, edge, struck⟩ := loses
      exact parentsOf_eq_of_restores edge struck (restored child)
    · refine parentsOf_eq_of_spared (fun parent edge => ?_) restored
      rw [← Bool.not_eq_true]
      exact fun struck => loses ⟨parent, edge, struck⟩

/-! ## The members of the second run -/

/-- The second run ends with the rebuilt graph and the fallback. -/
theorem settled_resolvedMembers (members : Vector Model size) :
    settled (resolvedMembers members) = (rebuilt members).withDefault := by
  have idle : (ofMembers (resolvedMembers members)).backEdges = [] :=
    backEdges_eq_nil_iff.mpr (acyclic_rebuilt members)
  rw [settled_eq, kept, idle, removeEdges_nil, rebuilt]

/-- The fields that are merged depend on the parents and the declared fields alone. -/
theorem mergedFields_congr {graph other : InheritanceGraph size}
    (parents : ∀ member, graph.parentsOf member = other.parentsOf member)
    (fields : ∀ member : Fin size,
      (graph.members.get member).fields = (other.members.get member).fields) :
    graph.mergedFields = other.mergedFields := by
  have same : graph.parentsOf = other.parentsOf := funext parents
  simp only [mergedFields, topologicalOrder, same, fields]

/-- Resolved members are resolved to themselves exactly when each has its parents again. -/
theorem resolvedMembers_resolvedMembers_iff
    (distinct : NamesDistinct members) :
    resolvedMembers (resolvedMembers members) = resolvedMembers members ↔
      ∀ child, (rebuilt members).withDefault.parentsOf child =
        (settled members).parentsOf child := by
  have names : (settled (resolvedMembers members)).nameOf = (settled members).nameOf := by
    funext member
    rw [nameOf_settled, nameOf_settled, name_resolvedMembers]
  rw [← settled_resolvedMembers]
  constructor
  · intro same child
    have parents : (settled (resolvedMembers members)).parentNames child =
        (settled members).parentNames child := by
      rw [← resolvedParents_resolvedMembers, ← resolvedParents_resolvedMembers, same]
    rw [parentNames, parentNames, names] at parents
    refine List.map_injective_iff.mpr ?_ parents
    intro first second alike
    rw [nameOf_settled, nameOf_settled] at alike
    exact distinct alike
  · intro parents
    have repairs : (ofMembers (resolvedMembers members)).breakCycles.1 = [] :=
      (acyclic_rebuilt members).breakCycles
    have fields : ∀ member : Fin size,
        ((settled (resolvedMembers members)).members.get member).fields =
        ((settled members).members.get member).fields := by
      intro member
      rw [members_settled, members_settled, fields_resolvedMembers]
    have merged := mergedFields_congr parents fields
    have alike : ∀ place : Fin size,
        (resolvedMembers (resolvedMembers members)).get place =
          (resolvedMembers members).get place := by
      intro place
      have parentNames : (settled (resolvedMembers members)).parentNames place =
          ((resolvedMembers members).get place).resolvedParents := by
        rw [resolvedParents_resolvedMembers, parentNames, parentNames, names, parents]
      rw [get_resolvedMembers (resolvedMembers members), repairs, keptInherits_nil, members_settled,
        parentNames, merged, ← fullFields_resolvedMembers]
    ext1 place bounded
    exact alike ⟨place, bounded⟩

end InheritanceGraph

namespace Document

open InheritanceGraph

/-! ## Resolved documents -/

variable {size : Nat} {document resolved : Document} {warnings : List Diagnostic}

/-- Along with the name of a removed parent, resolution struck the name of one that the
child keeps: the two differ only in case. -/
def StrikesKept (resolved : Document) (declared : InheritanceGraph size)
    (child parent : String) : Prop :=
  declared.NamedEdge child parent ∧ resolved.ResolvedEdge child parent ∧
    ∃ removed, declared.NamedEdge child removed ∧ ¬resolved.ResolvedEdge child removed ∧
      equalIgnoringCase parent removed = true

/-- A model would get a parent back as the default entity: that comes last, and the model
is not abstract and has no other model as a parent. -/
structure Regains (resolved : Document) (model : Model) (parent : String) : Prop where
  isDefault : resolved.default?.map Model.name = some parent
  isLast : model.resolvedParents.getLast? = some parent
  isModel : model.kind = .model
  isConcrete : model.isAbstract = false
  onlyModel : ∀ other ∈ resolved.models, other.name ∈ model.resolvedParents →
    other.kind = .model → other.name = parent

/-- A resolved document is resolved again, and comes out as it went in exactly when each
parent that lost its name is restored. -/
theorem resolveInheritance_resolved
    (succeeds : document.resolveInheritance = .ok (resolved, warnings)) :
    ∃ again, resolved.resolveInheritance = .ok (again, []) ∧
      (again = resolved ↔ ∀ child parent, (kept (membersOf document)).Edge child parent →
        (ofMembers (membersOf document)).strikes child parent = true →
        (settled (membersOf document)).Restores child parent) := by
  have listed := models_of_resolveInheritance succeeds
  have distinct := document.namesDistinct_membersOf
  have distinctAgain : NamesDistinct (resolvedMembers (membersOf document)) := by
    simpa only [NamesDistinct, name_resolvedMembers] using distinct
  have run := resolveInheritance_eq listed.symm (faultless_resolved succeeds)
  have silent : (ofMembers (resolvedMembers (membersOf document))).breakCycles.1.map
      (settled (resolvedMembers (membersOf document))).repairWarning = [] := by
    have repairs : (ofMembers (resolvedMembers (membersOf document))).breakCycles.1 = [] :=
      (acyclic_rebuilt _).breakCycles
    rw [repairs, List.map_nil]
  rw [silent] at run
  refine ⟨_, run, ?_⟩
  rw [mapModels_eq_self_iff, listed, map_resolveModel distinctAgain, Vector.toList_inj,
    resolvedMembers_resolvedMembers_iff distinct, parentsOf_again_iff]

/-- In terms of names, a parent is kept and its name is struck. -/
theorem strikesKept_iff (succeeds : document.resolveInheritance = .ok (resolved, warnings))
    {child parent : Fin document.models.length} :
    resolved.StrikesKept (ofMembers (membersOf document)) ((membersOf document).get child).name
        ((membersOf document).get parent).name ↔
      (kept (membersOf document)).Edge child parent ∧
        (ofMembers (membersOf document)).strikes child parent = true := by
  have distinct := document.namesDistinct_membersOf
  have declaredEdge : ∀ ancestor, (ofMembers (membersOf document)).NamedEdge
      ((membersOf document).get child).name ((membersOf document).get ancestor).name ↔
        (ofMembers (membersOf document)).Edge child ancestor :=
    fun _ => namedEdge_iff (injective_nameOf_ofMembers distinct)
  have resolvedEdge : ∀ ancestor, resolved.ResolvedEdge
      ((membersOf document).get child).name ((membersOf document).get ancestor).name ↔
        (settled (membersOf document)).Edge child ancestor := by
    intro ancestor
    rw [resolvedEdge_iff succeeds, ← nameOf_settled, ← nameOf_settled,
      namedEdge_iff (injective_nameOf_settled distinct)]
  constructor
  · rintro ⟨isDeclared, stays, _, removedEdge, gone, alike⟩
    have named := removedEdge
    obtain ⟨_, removed, _, _, rfl⟩ := named
    have backEdge : (child, removed) ∈ (ofMembers (membersOf document)).backEdges :=
      mem_backEdges_iff.mpr
        ⟨(declaredEdge removed).mp removedEdge, (resolvedEdge removed).not.mp gone⟩
    refine ⟨edge_kept.mpr ⟨(declaredEdge parent).mp isDeclared, fun isRemoved => ?_⟩, ?_⟩
    · exact (mem_backEdges_iff.mp isRemoved).2 ((resolvedEdge parent).mp stays)
    · exact List.any_eq_true.mpr ⟨(child, removed), backEdge, by simpa using alike⟩
  · rintro ⟨edge, struck⟩
    obtain ⟨⟨_, removed⟩, backEdge, alike⟩ := List.any_eq_true.mp struck
    rw [Bool.and_eq_true, beq_iff_eq] at alike
    obtain ⟨rfl, alike⟩ := alike
    obtain ⟨isDeclared, gone⟩ := mem_backEdges_iff.mp backEdge
    refine ⟨(declaredEdge parent).mpr (edge_kept.mp edge).1, (resolvedEdge parent).mpr ?_, _,
      (declaredEdge removed).mpr isDeclared, (resolvedEdge removed).not.mpr gone, alike⟩
    rw [settled_eq, Edge, parentsOf_withDefault]
    exact List.mem_append_left _ edge

/-- The default entity of a resolved document is that of its graph. -/
theorem default?_resolved (succeeds : document.resolveInheritance = .ok (resolved, warnings)) :
    resolved.default?.map Model.name =
      (settled (membersOf document)).default?.map
        fun place => ((membersOf document).get place).name := by
  rw [default?, models_of_resolveInheritance succeeds, ← map_get_finRange, List.find?_map,
    Option.map_map, InheritanceGraph.default?, members_settled]
  simp only [Function.comp_def, isDefault_resolvedMembers, name_resolvedMembers]

/-- The name of a member is among the resolved parents if the member is. -/
theorem name_mem_resolvedParents_iff {child other : Fin document.models.length} :
    ((resolvedMembers (membersOf document)).get other).name ∈
        ((resolvedMembers (membersOf document)).get child).resolvedParents ↔
      other ∈ (settled (membersOf document)).parentsOf child := by
  rw [name_resolvedMembers, resolvedParents_resolvedMembers, parentNames, ← nameOf_settled,
    List.mem_map_of_injective (injective_nameOf_settled document.namesDistinct_membersOf)]

/-- The name of a member is the last of the resolved parents if the member is. -/
theorem getLast?_resolvedParents_iff {child parent : Fin document.models.length} :
    ((resolvedMembers (membersOf document)).get child).resolvedParents.getLast? =
        some ((membersOf document).get parent).name ↔
      ((settled (membersOf document)).parentsOf child).getLast? = some parent := by
  have injective := injective_nameOf_settled document.namesDistinct_membersOf
  rw [resolvedParents_resolvedMembers, parentNames, List.getLast?_map, ← nameOf_settled]
  exact (Option.map_injective injective).eq_iff' rfl

/-- In terms of names, a parent is restored. -/
theorem regains_iff (succeeds : document.resolveInheritance = .ok (resolved, warnings))
    {child parent : Fin document.models.length} :
    resolved.Regains ((resolvedMembers (membersOf document)).get child)
        ((membersOf document).get parent).name ↔
      (settled (membersOf document)).Restores child parent := by
  have distinct := document.namesDistinct_membersOf
  have isDefault : resolved.default?.map Model.name = some ((membersOf document).get parent).name ↔
      (settled (membersOf document)).default? = some parent := by
    rw [default?_resolved succeeds]
    exact (Option.map_injective distinct).eq_iff' rfl
  have onlyModel : (∀ other ∈ resolved.models,
      other.name ∈ ((resolvedMembers (membersOf document)).get child).resolvedParents →
        other.kind = .model → other.name = ((membersOf document).get parent).name) ↔
      ∀ other ∈ (settled (membersOf document)).parentsOf child,
        ((settled (membersOf document)).members.get other).kind = .model → other = parent := by
    have isSame : ∀ other : Fin document.models.length,
        ((resolvedMembers (membersOf document)).get other).name =
          ((membersOf document).get parent).name ↔ other = parent := by
      intro other
      rw [name_resolvedMembers]
      exact distinct.eq_iff
    rw [models_of_resolveInheritance succeeds, ← map_get_finRange, List.forall_mem_map]
    simp only [List.mem_finRange, true_implies, name_mem_resolvedParents_iff, isSame,
      kind_resolvedMembers, members_settled]
  have sameKind : ((resolvedMembers (membersOf document)).get child).kind =
      ((settled (membersOf document)).members.get child).kind := by
    rw [members_settled, kind_resolvedMembers]
  have sameMark : ((resolvedMembers (membersOf document)).get child).isAbstract =
      ((settled (membersOf document)).members.get child).isAbstract := by
    rw [members_settled, isAbstract_resolvedMembers]
  constructor
  · intro back
    exact {
      isDefault := isDefault.mp back.isDefault
      isLast := getLast?_resolvedParents_iff.mp back.isLast
      isModel := sameKind.symm.trans back.isModel
      isConcrete := sameMark.symm.trans back.isConcrete
      onlyModel := onlyModel.mp back.onlyModel }
  · intro back
    exact {
      isDefault := isDefault.mpr back.isDefault
      isLast := getLast?_resolvedParents_iff.mpr back.isLast
      isModel := sameKind.trans back.isModel
      isConcrete := sameMark.trans back.isConcrete
      onlyModel := onlyModel.mpr back.onlyModel }

/-- A resolved document is resolved again, without a warning. It comes out as it went in
exactly when every parent that is kept and whose name was struck is regained. -/
theorem resolveInheritance_again
    (succeeds : document.resolveInheritance = .ok (resolved, warnings)) :
    ∃ declared again, build document = .ok declared ∧
      resolved.resolveInheritance = .ok (again, []) ∧
      (again = resolved ↔ ∀ model ∈ resolved.models, ∀ parent,
        resolved.StrikesKept declared model.name parent → resolved.Regains model parent) := by
  obtain ⟨again, run, unchanged⟩ := resolveInheritance_resolved succeeds
  refine ⟨_, again, build_eq_ok_iff.mpr ⟨faultless_of_resolveInheritance succeeds, rfl⟩, run, ?_⟩
  rw [unchanged, models_of_resolveInheritance succeeds, ← map_get_finRange, List.forall_mem_map]
  constructor
  · intro restored child _ parentName struck
    have named := struck.1
    obtain ⟨_, parent, _, _, rfl⟩ := named
    rw [name_resolvedMembers] at struck
    obtain ⟨edge, isStruck⟩ := (strikesKept_iff succeeds).mp struck
    exact (regains_iff succeeds).mpr (restored child parent edge isStruck)
  · intro regained child parent edge struck
    refine (regains_iff succeeds).mp (regained child (List.mem_finRange child) _ ?_)
    rw [name_resolvedMembers]
    exact (strikesKept_iff succeeds).mpr ⟨edge, struck⟩

/-- The tangled document comes out of a second resolution as it went in. -/
theorem untangled_again :
    tangled.resolveInheritance = .ok (untangled, tangleWarnings) ∧
      ∃ declared again, build tangled = .ok declared ∧
        untangled.resolveInheritance = .ok (again, []) ∧
        (again = untangled ↔ ∀ model ∈ untangled.models, ∀ parent,
          untangled.StrikesKept declared model.name parent → untangled.Regains model parent) :=
  ⟨resolveInheritance_tangled, resolveInheritance_again resolveInheritance_tangled⟩

/-- A child of two entities whose names differ only in case, one of which inherits from
the child. -/
def twins : Document where
  dialect := .current
  entities := [
    .model { name := "A", inherits := ["B"] },
    .model { name := "a" },
    .model { name := "B", inherits := ["A", "a"] }]
  distinctNames := by decide

/-- What the first resolution makes of the twins: both names are struck, one parent stays. -/
def severedTwins : Document where
  dialect := .current
  entities := [
    .model { name := "A", inherits := ["B"], resolvedParents := ["B"] },
    .model { name := "a" },
    .model { name := "B", resolvedParents := ["a"] }]
  distinctNames := by decide

/-- The second resolution of the twins changes them: the child loses the parent it kept. -/
theorem twins_not_idempotent : ∃ again,
    twins.resolveInheritance = .ok (severedTwins, [Diagnostic.cycleDetected "B" "A" .unknown]) ∧
      severedTwins.resolveInheritance = .ok (again, []) ∧ again ≠ severedTwins := by
  refine ⟨severedTwins.mapModel "B" fun model => { model with resolvedParents := [] }, ?_, ?_, ?_⟩
  · decide +kernel
  · decide +kernel
  · decide +kernel

/-- Where no two names differ only in case, a second resolution changes nothing. -/
theorem resolveInheritance_idempotent
    (apart : ∀ first ∈ document.models, ∀ second ∈ document.models,
      equalIgnoringCase first.name second.name = true → first.name = second.name)
    (succeeds : document.resolveInheritance = .ok (resolved, warnings)) :
    resolved.resolveInheritance = .ok (resolved, []) := by
  obtain ⟨again, run, unchanged⟩ := resolveInheritance_resolved succeeds
  have same : again = resolved := by
    rw [unchanged]
    intro child parent edge struck
    exfalso
    obtain ⟨⟨_, removed⟩, backEdge, alike⟩ := List.any_eq_true.mp struck
    rw [Bool.and_eq_true, beq_iff_eq] at alike
    obtain ⟨rfl, alike⟩ := alike
    have named := apart _ (get_membersOf_mem parent) _ (get_membersOf_mem removed) alike
    obtain rfl : parent = removed := document.namesDistinct_membersOf named
    exact (edge_kept.mp edge).2 backEdge
  rw [run, same]

end Document

end SchemaMarkup
