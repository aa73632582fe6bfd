import Mathlib.Logic.Equiv.Basic
import SchemaMarkup.Proofs.Inheritance.MergedFields

/-!
# Order of declaration

The graph of a document numbers its models in the order of their declaration. The walk starts
with the first number, the search for the default entity stops at the first one that is
marked, and the fallback goes from number to number. `InheritanceGraph.Relocates` says that
two graphs differ in nothing but the numbers. What resolution does to one it does to the
other, and so `Document.resolveInheritance_reordered` says that documents with the same
entities in another order are resolved alike.

Order does count among names that differ only in case, since a third spelling finds the first
of them, and for cycles, since the walk breaks them where it comes to them.
-/

open Relation (ReflTransGen TransGen)

namespace SchemaMarkup

namespace InheritanceGraph

variable {size count : Nat}

/-- No two members have names that are equal up to case. -/
def NamesApart (members : Vector Model size) : Prop :=
  ∀ one other : Fin size,
    equalIgnoringCase (members.get one).name (members.get other).name = true → one = other

/-- A member is found by every spelling of its name. -/
theorem placeOf?_eq_some_iff {members : Vector Model size} (apart : NamesApart members)
    {name : String} {place : Fin size} :
    placeOf? members name = some place ↔
      equalIgnoringCase (members.get place).name name = true := by
  rw [placeOf?, findNamed?_eq_some_iff fun one _ other _ => apart one other]
  simp

/-- At most one member is marked as the default entity. -/
def OneDefault (graph : InheritanceGraph size) : Prop :=
  ∀ one other, (graph.members.get one).isDefault = true →
    (graph.members.get other).isDefault = true → one = other

/-- The default entity is the member that is marked. -/
theorem default?_eq_some_iff {graph : InheritanceGraph size} (unique : graph.OneDefault)
    {member : Fin size} :
    graph.default? = some member ↔ (graph.members.get member).isDefault = true := by
  rw [default?]
  constructor
  · exact fun found => by simpa using List.find?_some found
  · intro marked
    cases found : (List.finRange size).find? fun place => (graph.members.get place).isDefault with
    | none => exact absurd marked (List.find?_eq_none.mp found member (List.mem_finRange member))
    | some other =>
        have otherMarked : (graph.members.get other).isDefault = true := by
          simpa using List.find?_some found
        rw [unique other member otherMarked marked]

/-! ## Graphs that differ in the numbers of their members -/

/-- One graph is another with its members renumbered. -/
structure Relocates (rename : Fin size ≃ Fin count) (graph : InheritanceGraph size)
    (other : InheritanceGraph count) : Prop where
  members : ∀ member, other.members.get (rename member) = graph.members.get member
  parents : ∀ member, other.parentsOf (rename member) = (graph.parentsOf member).map rename

namespace Relocates

variable {rename : Fin size ≃ Fin count} {graph : InheritanceGraph size}
  {other : InheritanceGraph count}

theorem symm (relocates : Relocates rename graph other) :
    Relocates rename.symm other graph where
  members := fun member => by rw [← relocates.members, Equiv.apply_symm_apply]
  parents := fun member => by
    have moved := relocates.parents (rename.symm member)
    rw [Equiv.apply_symm_apply] at moved
    rw [moved, List.map_map, Equiv.symm_comp_self, List.map_id]

theorem edge (relocates : Relocates rename graph other) {child parent : Fin size} :
    other.Edge (rename child) (rename parent) ↔ graph.Edge child parent := by
  rw [Edge, Edge, relocates.parents, List.mem_map_of_injective rename.injective]

/-- Paths go by the same members. -/
theorem path (relocates : Relocates rename graph other) {start finish : Fin size} :
    ReflTransGen other.Edge (rename start) (rename finish) ↔
      ReflTransGen graph.Edge start finish := by
  constructor
  · intro path
    have back : ReflTransGen graph.Edge (rename.symm (rename start))
        (rename.symm (rename finish)) :=
      path.lift rename.symm fun _ _ edge => relocates.symm.edge.mpr edge
    rwa [Equiv.symm_apply_apply, Equiv.symm_apply_apply] at back
  · exact fun path => path.lift rename fun _ _ edge => relocates.edge.mpr edge

theorem acyclic (relocates : Relocates rename graph other) (acyclic : graph.Acyclic) :
    other.Acyclic :=
  fun member cycle => acyclic (rename.symm member)
    (cycle.lift rename.symm fun _ _ edge => relocates.symm.edge.mpr edge)

theorem oneDefault (relocates : Relocates rename graph other) (unique : graph.OneDefault) :
    other.OneDefault := by
  intro one another marked alsoMarked
  rw [← relocates.symm.members] at marked alsoMarked
  exact rename.symm.injective (unique _ _ marked alsoMarked)

theorem needsDefault (relocates : Relocates rename graph other) (member : Fin size) :
    other.needsDefault (rename member) = graph.needsDefault member := by
  simp only [InheritanceGraph.needsDefault, relocates.members, relocates.parents, List.any_map,
    Function.comp_def]

/-- The default entity becomes a parent of the same members. -/
theorem mem_defaultParents (relocates : Relocates rename graph other) (unique : graph.OneDefault)
    {member fallback : Fin size} :
    rename fallback ∈ other.defaultParents (rename member) ↔
      fallback ∈ graph.defaultParents member := by
  rw [InheritanceGraph.mem_defaultParents, InheritanceGraph.mem_defaultParents,
    default?_eq_some_iff unique, default?_eq_some_iff (relocates.oneDefault unique),
    relocates.needsDefault, relocates.members, relocates.parents,
    List.mem_map_of_injective rename.injective, relocates.path]

theorem defaultParents (relocates : Relocates rename graph other) (unique : graph.OneDefault)
    (member : Fin size) :
    other.defaultParents (rename member) = (graph.defaultParents member).map rename := by
  by_cases given : ∃ fallback, fallback ∈ graph.defaultParents member
  · obtain ⟨fallback, added⟩ := given
    rw [defaultParents_eq_singleton added,
      defaultParents_eq_singleton ((relocates.mem_defaultParents unique).mpr added)]
    rfl
  · have nothing : graph.defaultParents member = [] :=
      List.eq_nil_iff_forall_not_mem.mpr fun fallback added => given ⟨fallback, added⟩
    rw [nothing, List.map_nil, List.eq_nil_iff_forall_not_mem]
    intro fallback added
    rw [← rename.apply_symm_apply fallback, relocates.mem_defaultParents unique] at added
    exact given ⟨_, added⟩

/-- The fallback keeps the graphs alike. -/
theorem withDefault (relocates : Relocates rename graph other) (unique : graph.OneDefault) :
    Relocates rename graph.withDefault other.withDefault where
  members := relocates.members
  parents := fun member => by
    rw [parentsOf_withDefault, parentsOf_withDefault, relocates.parents,
      relocates.defaultParents unique, List.map_append]

/-- Members have parents of the same names. -/
theorem parentNames (relocates : Relocates rename graph other) (member : Fin size) :
    other.parentNames (rename member) = graph.parentNames member := by
  rw [InheritanceGraph.parentNames, InheritanceGraph.parentNames, relocates.parents, List.map_map]
  exact List.map_congr_left fun parent _ => congrArg Model.name (relocates.members parent)

/-- Members come to the same fields, in whatever order the two walks merge them. -/
theorem mergedFields (relocates : Relocates rename graph other) (acyclic : graph.Acyclic)
    (member : Fin size) :
    other.mergedFields.get (rename member) = graph.mergedFields.get member := by
  -- The walks may list the members in unrelated orders, so the induction goes over parents.
  induction member using acyclic.induction with
  | step member inductionHypothesis =>
      rw [get_mergedFields (relocates.acyclic acyclic), get_mergedFields acyclic, fieldsFrom,
        fieldsFrom, relocates.parents, relocates.members, List.flatMap_map]
      congr 1
      exact List.flatMap_congr inductionHypothesis

end Relocates

/-! ## Members in another order -/

variable {members : Vector Model size} {others : Vector Model count}

/-- The graph of members in another order is the same but for the numbers. -/
theorem relocates_ofMembers {rename : Fin size ≃ Fin count} (apart : NamesApart members)
    (same : ∀ place, others.get (rename place) = members.get place) :
    Relocates rename (ofMembers members) (ofMembers others) where
  members := same
  parents := by
    have othersApart : NamesApart others := by
      intro one other alike
      rw [← rename.apply_symm_apply one, ← rename.apply_symm_apply other, same, same] at alike
      exact rename.symm.injective (apart _ _ alike)
    -- A lookup stops at the first member that fits, and here no other one fits.
    have places : placeOf? others = fun name => (placeOf? members name).map rename := by
      funext name
      apply Option.ext
      intro place
      obtain ⟨place, rfl⟩ := rename.surjective place
      rw [placeOf?_eq_some_iff othersApart, same, ← placeOf?_eq_some_iff apart,
        Option.map_eq_some_iff]
      simp
    intro member
    rw [parentsOf_ofMembers, parentsOf_ofMembers, same, places,
      ← eraseDups_map_of_injective rename.injective, List.map_filterMap]

/-- Without cycles nothing is repaired. -/
theorem settled_of_acyclic (acyclic : (ofMembers members).Acyclic) :
    settled members = (ofMembers members).withDefault := by
  rw [settled_eq, kept, backEdges_eq_nil_iff.mpr acyclic, removeEdges_nil]

/-- Members in another order are resolved alike. -/
theorem get_resolvedMembers_of_relocates {rename : Fin size ≃ Fin count}
    (relocates : Relocates rename (ofMembers members) (ofMembers others))
    (unique : (ofMembers members).OneDefault) (acyclic : (ofMembers members).Acyclic)
    (member : Fin size) :
    (resolvedMembers others).get (rename member) = (resolvedMembers members).get member := by
  have settles : Relocates rename (settled members) (settled others) := by
    rw [settled_of_acyclic acyclic, settled_of_acyclic (relocates.acyclic acyclic)]
    exact relocates.withDefault unique
  have sameMember : others.get (rename member) = members.get member := relocates.members member
  rw [get_resolvedMembers, get_resolvedMembers, acyclic.breakCycles,
    (relocates.acyclic acyclic).breakCycles, keptInherits_nil, keptInherits_nil, settles.members,
    settles.parentNames, settles.mergedFields (acyclic_settled members), sameMember]

end InheritanceGraph

namespace Document

open InheritanceGraph

variable {first second : Document}

/-- The models of documents that differ in order alone have each a place in the other. -/
theorem exists_rename (same : first.models.Perm second.models) :
    ∃ rename : Fin first.models.length ≃ Fin second.models.length,
      ∀ place, (membersOf second).get (rename place) = (membersOf first).get place := by
  have placed : ∀ place, ∃ target, (membersOf second).get target = (membersOf first).get place :=
    fun place => (mem_toList_iff (membersOf second)).mp
      (same.mem_iff.mp (get_membersOf_mem place))
  choose target found using placed
  have bijective : Function.Bijective target := by
    constructor
    · intro one other alike
      exact first.injective_get_membersOf (by rw [← found, ← found, alike])
    · intro place
      obtain ⟨source, isSource⟩ := (mem_toList_iff (membersOf first)).mp
        (same.mem_iff.mpr (get_membersOf_mem place))
      exact ⟨source, second.injective_get_membersOf ((found source).trans isSource)⟩
  exact ⟨Equiv.ofBijective target bijective, found⟩

/-- No two models have names that are equal up to case. -/
def ModelsApart (document : Document) : Prop :=
  ∀ one ∈ document.models, ∀ other ∈ document.models,
    equalIgnoringCase one.name other.name = true → one.name = other.name

theorem ModelsApart.namesApart (apart : first.ModelsApart) : NamesApart (membersOf first) := by
  intro one other alike
  exact first.namesDistinct_membersOf
    (apart _ (get_membersOf_mem one) _ (get_membersOf_mem other) alike)

theorem ModelsApart.perm (apart : first.ModelsApart) (same : first.models.Perm second.models) :
    second.ModelsApart :=
  fun one listed other alsoListed =>
    apart one (same.mem_iff.mpr listed) other (same.mem_iff.mpr alsoListed)

/-- A model is found by every spelling of its name. -/
theorem ModelsApart.findNamed?_eq_some_iff (apart : first.ModelsApart) {name : String}
    {model : Model} :
    findNamed? Model.name first.models name = some model ↔
      model ∈ first.models ∧ equalIgnoringCase model.name name = true :=
  SchemaMarkup.findNamed?_eq_some_iff fun one listed other alsoListed alike =>
    List.inj_on_of_nodup_map first.nodup_names_models listed alsoListed
      (apart one listed other alsoListed alike)

/-- A document that is not refused is not refused in another order. -/
theorem fault?_eq_none_of_perm (apart : first.ModelsApart)
    (same : first.models.Perm second.models) (faultless : fault? first = none) :
    fault? second = none := by
  rw [fault?_eq_none_iff] at faultless ⊢
  obtain ⟨unique, accepted⟩ := faultless
  refine ⟨(same.filter _).length_eq ▸ unique, fun model listed name inherited => ?_⟩
  obtain ⟨parent, found, fits⟩ := accepted model (same.mem_iff.mpr listed) name inherited
  refine ⟨parent, ?_, fits⟩
  rw [apart.findNamed?_eq_some_iff] at found
  rw [(apart.perm same).findNamed?_eq_some_iff, ← same.mem_iff]
  exact found

/-- The graph of a document that is not refused has at most one default entity. -/
theorem oneDefault_of_faultless (faultless : fault? first = none) :
    (ofMembers (membersOf first)).OneDefault := by
  have unique := (fault?_eq_none_iff.mp faultless).1
  intro one other marked alsoMarked
  have listed := List.mem_filter.mpr ⟨get_membersOf_mem one, marked⟩
  have alsoListed := List.mem_filter.mpr ⟨get_membersOf_mem other, alsoMarked⟩
  refine first.injective_get_membersOf ?_
  match shape : first.models.filter Model.isDefault with
  | [] => simp [shape] at listed
  | [only] =>
      rw [shape] at listed alsoListed
      exact (List.mem_singleton.mp listed).trans (List.mem_singleton.mp alsoListed).symm
  | _ :: _ :: _ => simp [shape] at unique

/-- Two documents are resolved alike: both or neither, and with the same entities. -/
structure ResolveAlike (first second : Document) : Prop where
  succeed : (∃ outcome, first.resolveInheritance = .ok outcome) ↔
    ∃ outcome, second.resolveInheritance = .ok outcome
  /-- An entity is the same in both outcomes, its parents and all its fields included. -/
  entities : ∀ {resolved other : Document} {warnings others : List Diagnostic},
    first.resolveInheritance = .ok (resolved, warnings) →
      second.resolveInheritance = .ok (other, others) →
        ∀ name, resolved.find? name = other.find? name

/-- Documents that hold the same entities in another order are resolved alike, if no two models
have names that are equal up to case and no model declares itself an ancestor of its own. -/
theorem resolveInheritance_reordered (same : first.entities.Perm second.entities)
    (apart : first.ModelsApart) (acyclic : ∀ graph, build first = .ok graph → graph.Acyclic) :
    ResolveAlike first second where
  succeed := by
    have models : first.models.Perm second.models := same.filterMap Entity.model?
    rw [exists_resolveInheritance_iff, exists_resolveInheritance_iff]
    exact ⟨fault?_eq_none_of_perm apart models,
      fault?_eq_none_of_perm (apart.perm models) models.symm⟩
  entities := by
    intro resolved other warnings others succeeds alsoSucceeds name
    have faultless := faultless_of_resolveInheritance succeeds
    obtain ⟨rename, sameModel⟩ := exists_rename (same.filterMap Entity.model?)
    have sameResolved := get_resolvedMembers_of_relocates
      (relocates_ofMembers apart.namesApart sameModel) (oneDefault_of_faultless faultless)
      (acyclic _ (build_eq_ok_iff.mpr ⟨faultless, rfl⟩))
    have sameModels : ∀ model, model ∈ resolved.models ↔ model ∈ other.models := by
      intro model
      rw [models_of_resolveInheritance succeeds, models_of_resolveInheritance alsoSucceeds,
        mem_toList_iff, mem_toList_iff, rename.surjective.exists]
      simp only [sameResolved]
    apply Option.ext
    intro entity
    rw [find?_eq_some_iff, find?_eq_some_iff]
    refine and_congr_left fun _ => ?_
    cases entity with
    | model contents => rw [← mem_models_iff, sameModels, mem_models_iff]
    | enumeration contents =>
        rw [enumeration_mem_resolved succeeds, enumeration_mem_resolved alsoSucceeds, same.mem_iff]

/-- Accounts with fields of one name from two interfaces, below a default entity. -/
def accounts : Document where
  dialect := .current
  entities := [
    .model { name := "Record", isDefault := true, fields := [{ name := "Id" }] },
    .model { name := "Owned", kind := .interface,
             fields := [{ name := "Note", label := "owned" }] },
    .model { name := "Rated", kind := .interface,
             fields := [{ name := "Note", label := "rated" }] },
    .enumeration { name := "Role" },
    .model { name := "Account", inherits := ["rated", "Owned"], fields := [{ name := "Name" }] },
    .model { name := "Admin", inherits := ["Account"],
             fields := [{ name := "Id", label := "own" }] }]
  distinctNames := by decide

/-- The same accounts, with children before their parents. -/
def reorderedAccounts : Document where
  dialect := .current
  entities := accounts.entities.reverse
  distinctNames := by decide

/-- The default entity and both interfaces come to the account in the same order. -/
theorem accounts_resolveAlike :
    (∃ outcome, accounts.resolveInheritance = .ok outcome ∧
      (outcome.1.model? "Account").map Model.resolvedParents =
        some ["Rated", "Owned", "Record"]) ∧
      reorderedAccounts.names ≠ accounts.names ∧ ResolveAlike accounts reorderedAccounts := by
  have outcome : accounts.resolveInheritance.toOption.map (fun outcome =>
      (outcome.1.model? "Account").map Model.resolvedParents) =
        some (some ["Rated", "Owned", "Record"]) := by
    decide +kernel
  have acyclic : ∀ graph, build accounts = .ok graph → graph.Acyclic := by
    intro graph built
    obtain ⟨_, rfl⟩ := build_eq_ok_iff.mp built
    exact backEdges_eq_nil_iff.mp (by decide +kernel)
  have apart : accounts.ModelsApart := by
    unfold ModelsApart
    decide +kernel
  refine ⟨?_, by decide, resolveInheritance_reordered
    (List.reverse_perm accounts.entities).symm apart acyclic⟩
  cases run : accounts.resolveInheritance with
  | error fault =>
      rw [run] at outcome
      contradiction
  | ok resolved =>
      rw [run] at outcome
      exact ⟨resolved, rfl, Option.some.inj outcome⟩

end Document

end SchemaMarkup
