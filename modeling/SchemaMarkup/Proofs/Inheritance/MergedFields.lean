import SchemaMarkup.Proofs.Inheritance.PostOrder
import SchemaMarkup.Proofs.Inheritance.ResolvedDocument

/-!
# Merged fields

Resolution puts the fields of a model together from the merged fields of its parents, one
level after another. `Model.MergesAncestors` says what comes of it by one walk over all
ancestors: the names are those that the ancestors declare, each at its first occurrence,
and the field of a name is the nearest one.
-/

namespace SchemaMarkup

/-- The first field of a name. -/
def fieldNamed? (fields : List Field) (name : String) : Option Field :=
  fields.find? fun field => field.name == name

/-! ## Merging two lists -/

theorem map_name_addInherited {fields : List Field} (distinct : (fields.map Field.name).Nodup)
    (field : Field) :
    (addInherited fields field).map Field.name =
      (fields.map Field.name ++ [field.name]).eraseDups := by
  rw [eraseDups_concat, eraseDups_of_nodup distinct, addInherited]
  simp only [List.any_eq_true, beq_iff_eq, List.mem_map]
  split <;> simp

theorem map_name_addDeclared {fields : List Field} (distinct : (fields.map Field.name).Nodup)
    (field : Field) :
    (addDeclared fields field).map Field.name =
      (fields.map Field.name ++ [field.name]).eraseDups := by
  rw [eraseDups_concat, eraseDups_of_nodup distinct, addDeclared]
  simp only [List.any_eq_true, beq_iff_eq, List.mem_map]
  split
  · rw [List.map_map]
    apply List.map_congr_left
    intro other _
    simp only [Function.comp_apply]
    split
    · next same => exact same.symm
    · rfl
  · simp

/-- Adding fields one by one adds each name once. -/
theorem map_name_foldl {add : List Field → Field → List Field}
    (adds : ∀ {fields}, (fields.map Field.name).Nodup → ∀ field,
      (add fields field).map Field.name = (fields.map Field.name ++ [field.name]).eraseDups)
    {fields : List Field} (distinct : (fields.map Field.name).Nodup) (added : List Field) :
    (added.foldl add fields).map Field.name =
      (fields.map Field.name ++ added.map Field.name).eraseDups := by
  induction added generalizing fields with
  | nil => simp [eraseDups_of_nodup distinct]
  | cons field rest inductionHypothesis =>
      have names := adds distinct field
      have distinctNext : ((add fields field).map Field.name).Nodup := by
        rw [names]
        exact nodup_eraseDups _
      rw [List.foldl_cons, inductionHypothesis distinctNext, names,
        eraseDups_append_congr_left (eraseDups_eraseDups _), List.map_cons, List.append_assoc]
      rfl

/-- The inherited names come first, and no name comes twice. -/
theorem map_name_mergeFields (inherited declared : List Field) :
    (mergeFields inherited declared).map Field.name =
      (inherited.map Field.name ++ declared.map Field.name).eraseDups := by
  have names : (inherited.foldl addInherited []).map Field.name =
      (inherited.map Field.name).eraseDups := by
    have none : (([] : List Field).map Field.name).Nodup := List.nodup_nil
    simpa using map_name_foldl map_name_addInherited none inherited
  have distinct : ((inherited.foldl addInherited []).map Field.name).Nodup := by
    rw [names]
    exact nodup_eraseDups _
  rw [mergeFields, map_name_foldl map_name_addDeclared distinct, names,
    eraseDups_append_congr_left (eraseDups_eraseDups _)]

theorem fieldNamed?_cons (field : Field) (rest : List Field) (name : String) :
    fieldNamed? (field :: rest) name =
      if field.name = name then some field else fieldNamed? rest name := by
  rw [fieldNamed?, List.find?_cons]
  by_cases same : field.name = name
  · simp [same]
  · simp only [beq_false_of_ne same, if_neg same]
    rfl

/-- An inherited field counts only if there is none of its name. -/
theorem fieldNamed?_addInherited (fields : List Field) (field : Field) (name : String) :
    fieldNamed? (addInherited fields field) name =
      (fieldNamed? fields name).or (if field.name = name then some field else none) := by
  rw [addInherited]
  split
  · next known =>
      by_cases same : field.name = name
      · have found : (fieldNamed? fields name).isSome := by
          rw [fieldNamed?, List.find?_isSome]
          simpa [same] using known
        rw [Option.or_of_isSome found]
      · simp [same]
  · rw [fieldNamed?, List.find?_append]
    exact congrArg _ (fieldNamed?_cons field [] name)

/-- Of inherited fields of one name the first counts. -/
theorem fieldNamed?_foldl_addInherited (fields added : List Field) (name : String) :
    fieldNamed? (added.foldl addInherited fields) name =
      (fieldNamed? fields name).or (fieldNamed? added name) := by
  induction added generalizing fields with
  | nil => simp [fieldNamed?]
  | cons field rest inductionHypothesis =>
      rw [List.foldl_cons, inductionHypothesis, fieldNamed?_addInherited, Option.or_assoc,
        fieldNamed?_cons]
      split <;> rfl

/-- A declared field takes the place of its namesake. -/
theorem fieldNamed?_addDeclared (fields : List Field) (field : Field) (name : String) :
    fieldNamed? (addDeclared fields field) name =
      if field.name = name then some field else fieldNamed? fields name := by
  rw [addDeclared]
  split
  · next known =>
      have names : (fun other : Field =>
          (if other.name == field.name then field else other).name == name) =
            fun other => other.name == name := by
        funext other
        split
        · next alike => rw [beq_iff_eq.mp alike]
        · rfl
      rw [fieldNamed?, List.find?_map, Function.comp_def, names, ← fieldNamed?]
      cases found : fieldNamed? fields name with
      | none =>
          rw [if_neg]
          · rfl
          · intro same
            rw [fieldNamed?, List.find?_eq_none] at found
            obtain ⟨other, listed, alike⟩ := List.any_eq_true.mp known
            exact found other listed (by rwa [← same])
      | some other =>
          have named : other.name = name := by simpa using List.find?_some found
          by_cases same : field.name = name
          · simp [same, named]
          · simp [same, named, Ne.symm same]
  · next fresh =>
      rw [fieldNamed?, List.find?_append, ← fieldNamed?, ← fieldNamed?, fieldNamed?_cons]
      by_cases same : field.name = name
      · have absent : fieldNamed? fields name = none := by
          rw [fieldNamed?, List.find?_eq_none]
          intro other listed alike
          exact fresh (List.any_eq_true.mpr ⟨other, listed, by rwa [same]⟩)
        simp [same, absent]
      · simp [same, fieldNamed?]

/-- Of declared fields every one counts, if no two have the same name. -/
theorem fieldNamed?_foldl_addDeclared (fields : List Field) {added : List Field}
    (distinct : (added.map Field.name).Nodup) (name : String) :
    fieldNamed? (added.foldl addDeclared fields) name =
      (fieldNamed? added name).or (fieldNamed? fields name) := by
  induction added generalizing fields with
  | nil => simp [fieldNamed?]
  | cons field rest inductionHypothesis =>
      obtain ⟨fresh, distinctRest⟩ := List.nodup_cons.mp distinct
      rw [List.foldl_cons, inductionHypothesis _ distinctRest, fieldNamed?_addDeclared,
        fieldNamed?_cons]
      by_cases same : field.name = name
      · have absent : fieldNamed? rest name = none := by
          rw [fieldNamed?, List.find?_eq_none]
          intro other listed alike
          rw [beq_iff_eq] at alike
          exact fresh (List.mem_map.mpr ⟨other, listed, alike.trans same.symm⟩)
        simp [same, absent]
      · simp [same]

/-- A declared field hides the inherited fields of its name. -/
theorem fieldNamed?_mergeFields (inherited : List Field) {declared : List Field}
    (distinct : (declared.map Field.name).Nodup) (name : String) :
    fieldNamed? (mergeFields inherited declared) name =
      (fieldNamed? declared name).or (fieldNamed? inherited name) := by
  rw [mergeFields, fieldNamed?_foldl_addDeclared _ distinct, fieldNamed?_foldl_addInherited]
  rfl

namespace InheritanceGraph

variable {size : Nat} {graph : InheritanceGraph size}

/-! ## Merging level by level -/

/-- An order in which every member comes after its parents. -/
def ParentsFirst (graph : InheritanceGraph size) (order : List (Fin size)) : Prop :=
  ∀ earlier member later, order = earlier ++ member :: later →
    ∀ parent ∈ graph.parentsOf member, parent ∈ earlier

/-- Such an order holds the parents of its members. -/
theorem ParentsFirst.closed {order : List (Fin size)} (first : graph.ParentsFirst order)
    {member : Fin size} (listed : member ∈ order) :
    ∀ parent ∈ graph.parentsOf member, parent ∈ order := by
  obtain ⟨earlier, later, rfl⟩ := List.append_of_mem listed
  intro parent declared
  exact List.mem_append_left _ (first earlier member later rfl parent declared)

/-- In an acyclic graph parents come before their children. -/
theorem idxOf_topologicalOrder_lt (acyclic : graph.Acyclic) {child parent : Fin size}
    (edge : graph.Edge child parent) :
    graph.topologicalOrder.idxOf parent < graph.topologicalOrder.idxOf child := by
  refine Walk.idxOf_finished_all_lt edge ?_
  have none := backEdges_eq_nil_iff.mpr acyclic
  rw [backEdges] at none
  simp [none]

/-- What every member has whose parents have it, all members of an acyclic graph have. -/
theorem Acyclic.induction (acyclic : graph.Acyclic) {motive : Fin size → Prop}
    (step : ∀ member, (∀ parent ∈ graph.parentsOf member, motive parent) → motive member)
    (member : Fin size) : motive member := by
  induction isRank : graph.topologicalOrder.idxOf member using Nat.strongRecOn
    generalizing member with
  | _ rank inductionHypothesis =>
      refine step member fun parent edge => inductionHypothesis _ ?_ parent rfl
      exact isRank ▸ idxOf_topologicalOrder_lt acyclic edge

theorem parentsFirst_topologicalOrder (acyclic : graph.Acyclic) :
    graph.ParentsFirst graph.topologicalOrder := by
  intro earlier member later split parent declared
  have before := idxOf_topologicalOrder_lt acyclic declared
  have distinct : graph.topologicalOrder.Nodup := Walk.sound_all.distinct
  rw [split] at before distinct
  by_contra absent
  have fresh : member ∉ earlier := by
    intro known
    exact (List.nodup_append.mp distinct).2.2 member known member List.mem_cons_self rfl
  rw [List.idxOf_append_of_notMem absent, List.idxOf_append_of_notMem fresh,
    List.idxOf_cons_self] at before
  omega

/-- The fields of a member, given the merged fields of its parents. -/
def fieldsFrom (graph : InheritanceGraph size) (merged : Vector (List Field) size)
    (member : Fin size) : List Field :=
  mergeFields ((graph.parentsOf member).flatMap fun parent => merged.get parent)
    (graph.members.get member).fields

/-- Only the fields of parents count. -/
theorem fieldsFrom_congr {merged others : Vector (List Field) size} {member : Fin size}
    (same : ∀ parent ∈ graph.parentsOf member, merged.get parent = others.get parent) :
    graph.fieldsFrom merged member = graph.fieldsFrom others member := by
  rw [fieldsFrom, fieldsFrom, List.flatMap_congr same]

/-- The fields of members with those of some members merged anew, in order. -/
def mergeAlong (graph : InheritanceGraph size) (order : List (Fin size))
    (start : Vector (List Field) size) : Vector (List Field) size :=
  order.foldl
    (fun merged (member : Fin size) =>
      merged.set member (graph.fieldsFrom merged member) member.isLt)
    start

/-- Merging along an order fits every member of it. -/
theorem get_mergeAlong {order : List (Fin size)} (distinct : order.Nodup)
    (first : graph.ParentsFirst order) (start : Vector (List Field) size) :
    ∀ member ∈ order, (graph.mergeAlong order start).get member =
      graph.fieldsFrom (graph.mergeAlong order start) member := by
  induction order using List.reverseRecOn with
  | nil => simp
  | append_singleton before last inductionHypothesis =>
      have firstBefore : graph.ParentsFirst before := by
        intro earlier member later split
        exact first earlier member (later ++ [last]) (by simp [split])
      obtain ⟨distinctBefore, _, apart⟩ := List.nodup_append.mp distinct
      have known := inductionHypothesis distinctBefore firstBefore
      have step : graph.mergeAlong (before ++ [last]) start =
          (graph.mergeAlong before start).set last
            (graph.fieldsFrom (graph.mergeAlong before start) last) := by
        simp [mergeAlong]
      rw [step]
      generalize graph.mergeAlong before start = merged at known ⊢
      -- The last member is no parent of any member, so no list changes under it.
      have kept : ∀ other ∈ before,
          (merged.set last (graph.fieldsFrom merged last)).get other = merged.get other := by
        intro other listed
        have different : other ≠ last := apart other listed last List.mem_cons_self
        exact Vector.getElem_set_ne _ other.isLt (Fin.val_ne_of_ne different.symm)
      have sameParents : ∀ member ∈ before ++ [last],
          graph.fieldsFrom (merged.set last (graph.fieldsFrom merged last)) member =
            graph.fieldsFrom merged member := by
        intro member listed
        refine fieldsFrom_congr fun parent declared => kept parent ?_
        rcases List.mem_append.mp listed with earlier | isLast
        · exact firstBefore.closed earlier parent declared
        · obtain rfl := List.mem_singleton.mp isLast
          exact first before member [] rfl parent declared
      intro member listed
      rw [sameParents member listed]
      rcases List.mem_append.mp listed with earlier | isLast
      · rw [kept member earlier, known member earlier]
      · obtain rfl := List.mem_singleton.mp isLast
        exact Vector.getElem_set_self _

/-- The merged fields of a member are put together from those of its parents. -/
theorem get_mergedFields (acyclic : graph.Acyclic) (member : Fin size) :
    graph.mergedFields.get member = graph.fieldsFrom graph.mergedFields member :=
  get_mergeAlong Walk.sound_all.distinct (parentsFirst_topologicalOrder acyclic) _
    member (Walk.mem_finished_all member)

/-- In an acyclic graph the walk over the ancestors of a member has an outcome. -/
theorem exists_postOrder (acyclic : graph.Acyclic) (member : Fin size) :
    ∃ walked, PostOrder graph.parentsOf [] [member] walked :=
  PostOrder.exists_of_rank graph.topologicalOrder.idxOf
    (fun _ _ edge => idxOf_topologicalOrder_lt acyclic edge) [] [member]

/-- The names of merged fields are those that one walk over the ancestors collects. -/
theorem map_name_mergedFields (acyclic : graph.Acyclic) {member : Fin size}
    {walked : List (Fin size)} (walk : PostOrder graph.parentsOf [] [member] walked) :
    (graph.mergedFields.get member).map Field.name =
      (walked.flatMap fun ancestor =>
        (graph.members.get ancestor).fields.map Field.name).eraseDups := by
  have composed : ∀ node : Fin size, (graph.mergedFields.get node).map Field.name =
      ((graph.parentsOf node).flatMap
          (fun parent => (graph.mergedFields.get parent).map Field.name) ++
        (graph.members.get node).fields.map Field.name).eraseDups := by
    intro node
    rw [get_mergedFields acyclic, fieldsFrom, map_name_mergeFields, List.map_flatMap]
  have collected := (PostOrder.names composed walk (by simp)).1
  simp only [List.flatMap_nil, List.nil_append, List.flatMap_cons, List.append_nil] at collected
  rw [← collected, composed, eraseDups_eraseDups]

/-- The merged field of a name is declared by the member, or is that of the first parent
that has one. -/
theorem fieldNamed?_mergedFields (acyclic : graph.Acyclic) {member : Fin size}
    (distinct : ((graph.members.get member).fields.map Field.name).Nodup) (name : String) :
    fieldNamed? (graph.mergedFields.get member) name =
      (fieldNamed? (graph.members.get member).fields name).or
        ((graph.parentsOf member).findSome? fun parent =>
          fieldNamed? (graph.mergedFields.get parent) name) := by
  rw [get_mergedFields acyclic, fieldsFrom, fieldNamed?_mergeFields _ distinct]
  congr 1
  exact List.find?_flatMap

end InheritanceGraph

namespace Document

open InheritanceGraph

/-! ## Resolved documents -/

/-- The resolved parents of the model of a name. -/
def parentsNamed (document : Document) (name : String) : List String :=
  (document.model? name).elim [] Model.resolvedParents

/-- The names of the fields that the model of a name declares. -/
def ownFieldNames (document : Document) (name : String) : List String :=
  (document.model? name).elim [] fun model => model.fields.map Field.name

/-- The fields of a resolved model are merged from those of its ancestors, which are listed
as the depth-first walk finishes them. -/
structure MergesAncestors (document resolved : Document) (model : Model)
    (ancestors : List String) : Prop where
  /-- The walk over resolved parents from the model has just this outcome. -/
  walk : ∀ walked, PostOrder resolved.parentsNamed [] [model.name] walked ↔ walked = ancestors
  /-- The declared fields are those of the document that was resolved. -/
  declared : (document.model? model.name).map Model.fields = some model.fields
  /-- The names are those that the ancestors declare, without later repeats. -/
  names : model.fullFields.map Field.name =
    (ancestors.flatMap document.ownFieldNames).eraseDups
  /-- No name comes twice. -/
  distinct : (model.fullFields.map Field.name).Nodup
  /-- The field of a name is declared by the model, or is that of the first parent that
  has one. -/
  nearest : ∀ name, model.fullField? name =
    (model.field? name).or (model.resolvedParents.findSome? fun parent =>
      (resolved.model? parent).bind fun ancestor => ancestor.fullField? name)

variable {document resolved : Document} {warnings : List Diagnostic}

/-- The models of a resolved document are found by the names of the members. -/
theorem model?_resolved (succeeds : document.resolveInheritance = .ok (resolved, warnings))
    (place : Fin document.models.length) :
    resolved.model? ((membersOf document).get place).name =
      some ((resolvedMembers (membersOf document)).get place) := by
  rw [← name_resolvedMembers]
  apply model?_name
  rw [models_of_resolveInheritance succeeds, ← map_get_finRange]
  exact List.mem_map_of_mem (List.mem_finRange place)

/-- The members of the graph are the models by their names. -/
theorem model?_membersOf (place : Fin document.models.length) :
    document.model? ((membersOf document).get place).name =
      some ((membersOf document).get place) :=
  model?_name (get_membersOf_mem place)

/-- By name, the resolved parents are those of the graph that resolution ends with. -/
theorem parentsNamed_resolved
    (succeeds : document.resolveInheritance = .ok (resolved, warnings))
    (place : Fin document.models.length) :
    resolved.parentsNamed ((membersOf document).get place).name =
      ((settled (membersOf document)).parentsOf place).map
        fun parent => ((membersOf document).get parent).name := by
  rw [parentsNamed, model?_resolved succeeds, Option.elim_some, resolvedParents_resolvedMembers,
    parentNames]
  exact List.map_congr_left fun parent _ => nameOf_settled _ parent

/-- The names of the fields of a resolved model are those that its ancestors declare. -/
theorem map_name_fullFields {member : Fin document.models.length}
    {walked : List (Fin document.models.length)}
    (walk : PostOrder (settled (membersOf document)).parentsOf [] [member] walked) :
    ((resolvedMembers (membersOf document)).get member).fullFields.map Field.name =
      ((walked.map fun place => ((membersOf document).get place).name).flatMap
        document.ownFieldNames).eraseDups := by
  rw [fullFields_resolvedMembers, map_name_mergedFields (acyclic_settled _) walk,
    List.flatMap_map]
  congr 1
  refine List.flatMap_congr fun place _ => ?_
  rw [ownFieldNames, model?_membersOf, Option.elim_some, members_settled]

/-- The field of a name of a resolved model is its own, or that of the first parent that
has one. -/
theorem fullField?_resolvedMembers
    (succeeds : document.resolveInheritance = .ok (resolved, warnings))
    {member : Fin document.models.length}
    (distinct : (((membersOf document).get member).fields.map Field.name).Nodup)
    (name : String) :
    ((resolvedMembers (membersOf document)).get member).fullField? name =
      (((resolvedMembers (membersOf document)).get member).field? name).or
        (((resolvedMembers (membersOf document)).get member).resolvedParents.findSome?
          fun parent => (resolved.model? parent).bind
            fun ancestor => ancestor.fullField? name) := by
  have own : (((settled (membersOf document)).members.get member).fields.map Field.name).Nodup := by
    rwa [members_settled]
  have nearest := fieldNamed?_mergedFields (acyclic_settled _) own name
  rw [members_settled, ← fields_resolvedMembers] at nearest
  have above : ((resolvedMembers (membersOf document)).get member).resolvedParents.findSome?
      (fun parent => (resolved.model? parent).bind fun ancestor => ancestor.fullField? name) =
        ((settled (membersOf document)).parentsOf member).findSome? fun parent =>
          fieldNamed? ((settled (membersOf document)).mergedFields.get parent) name := by
    rw [resolvedParents_resolvedMembers, parentNames, List.findSome?_map]
    congr 1
    funext parent
    rw [Function.comp_apply, nameOf_settled, model?_resolved succeeds, Option.bind_some,
      Model.fullField?, fullFields_resolvedMembers]
    rfl
  rw [above, Model.fullField?, fullFields_resolvedMembers]
  exact nearest

/-- Where no entity declares two fields of one name, every resolved model merges the fields
of its ancestors. -/
theorem resolveInheritance_mergesAncestors
    (distinct : ∀ model ∈ document.models, (model.fields.map Field.name).Nodup)
    (succeeds : document.resolveInheritance = .ok (resolved, warnings)) :
    ∀ model ∈ resolved.models, ∃ ancestors, MergesAncestors document resolved model ancestors := by
  intro model listed
  rw [models_of_resolveInheritance succeeds, ← map_get_finRange] at listed
  obtain ⟨member, _, rfl⟩ := List.mem_map.mp listed
  obtain ⟨walked, walk⟩ := exists_postOrder (acyclic_settled (membersOf document)) member
  have named : PostOrder resolved.parentsNamed []
      [((resolvedMembers (membersOf document)).get member).name]
      (walked.map fun place => ((membersOf document).get place).name) := by
    rw [name_resolvedMembers]
    exact walk.map document.namesDistinct_membersOf (parentsNamed_resolved succeeds)
  exact ⟨_, {
    walk := fun others => ⟨fun other => other.unique named, fun same => same ▸ named⟩
    declared := by
      rw [name_resolvedMembers, model?_membersOf, Option.map_some, fields_resolvedMembers]
    names := map_name_fullFields walk
    distinct := by
      rw [map_name_fullFields walk]
      exact nodup_eraseDups _
    nearest := fullField?_resolvedMembers succeeds (distinct _ (get_membersOf_mem member)) }⟩

/-- A model that comes to a record by two ways, on both of which a field is declared anew. -/
def diamond : Document where
  dialect := .current
  entities := [
    .model { name := "Record", fields := [{ name := "Id" }, { name := "Note" }] },
    .model { name := "Left", inherits := ["Record"],
             fields := [{ name := "Size" }, { name := "Note", label := "left" }] },
    .model { name := "Right", inherits := ["Record"],
             fields := [{ name := "Note", label := "right" }, { name := "Width" }] },
    .model { name := "Both", inherits := ["Right", "Left"],
             fields := [{ name := "Size", label := "both" }, { name := "Depth" }] }]
  distinctNames := by decide

/-- The fields that resolution gives to each model of the diamond. -/
def diamondFields : String → List Field
  | "Record" => [{ name := "Id" }, { name := "Note" }]
  | "Left" => [{ name := "Id" }, { name := "Note", label := "left" }, { name := "Size" }]
  | "Right" => [{ name := "Id" }, { name := "Note", label := "right" }, { name := "Width" }]
  | "Both" => [{ name := "Id" }, { name := "Note", label := "right" }, { name := "Width" },
      { name := "Size", label := "both" }, { name := "Depth" }]
  | _ => []

/-- What resolution makes of the diamond. -/
def mergedDiamond : Document :=
  diamond.mapModels fun model =>
    { model with resolvedParents := model.inherits, fullFields := diamondFields model.name }

/-- The nearest of the fields declared anew counts, in the place of the first. -/
theorem diamond_mergesAncestors :
    diamond.resolveInheritance = .ok (mergedDiamond, []) ∧
      (∀ model ∈ diamond.models, (model.fields.map Field.name).Nodup) ∧
      ∀ model ∈ mergedDiamond.models, ∃ ancestors,
        MergesAncestors diamond mergedDiamond model ancestors := by
  have succeeds : diamond.resolveInheritance = .ok (mergedDiamond, []) := by decide +kernel
  have distinct : ∀ model ∈ diamond.models, (model.fields.map Field.name).Nodup := by
    decide +kernel
  exact ⟨succeeds, distinct, resolveInheritance_mergesAncestors distinct succeeds⟩

end Document

end SchemaMarkup
