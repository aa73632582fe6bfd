import SchemaMarkup.Proofs.Inheritance.InheritedFields
import SchemaMarkup.Proofs.Inheritance.ParentNames

/-!
# The routes of inherited fields

An entity that does not declare a field of some name takes it from the first of its resolved parents
that has one (`Document.TakesFrom`), and this parent may have taken it from its own first one. Every
field of a resolved document comes to the entity that has it by such a route, at the end of which it
is declared (`Document.MergesParents.exists_route`).

The route goes by the order of parents, and it does not ask whether some other way up has more to
say. Of two parents the first one counts, even if the field that it has is the one that the second
one overrides (`Document.forked`). `Document.MergesParents.passesBy` says that this is the only way
to lose a declaration to one that it overrides: the route must have branched off from an entity that
inherits the lost declaration through later parents only. Where it is inherited through first
parents, as in a chain of single ones, the closest declaration counts.
-/

open Relation (ReflTransGen TransGen)

namespace SchemaMarkup

/-! ## Merging any lists of fields -/

theorem isSome_fieldNamed?_iff {fields : List Field} {name : String} :
    (fieldNamed? fields name).isSome = true ↔ name ∈ fields.map Field.name := by
  rw [fieldNamed?, List.find?_isSome]
  simp only [beq_iff_eq, List.mem_map]

theorem fieldNamed?_eq_none_iff {fields : List Field} {name : String} :
    fieldNamed? fields name = none ↔ name ∉ fields.map Field.name := by
  rw [← isSome_fieldNamed?_iff, Bool.not_eq_true, Option.isSome_eq_false_iff,
    Option.isNone_iff_eq_none]

/-- Of declared fields of one name the last counts. -/
theorem fieldNamed?_foldl_addDeclared_reverse (fields added : List Field) (name : String) :
    fieldNamed? (added.foldl addDeclared fields) name =
      (fieldNamed? added.reverse name).or (fieldNamed? fields name) := by
  induction added generalizing fields with
  | nil => rfl
  | cons field rest inductionHypothesis =>
      have last : fieldNamed? (field :: rest).reverse name =
          (fieldNamed? rest.reverse name).or (if field.name = name then some field else none) := by
        rw [List.reverse_cons, fieldNamed?, List.find?_append]
        exact congrArg _ (fieldNamed?_cons field [] name)
      rw [List.foldl_cons, inductionHypothesis, fieldNamed?_addDeclared, last, Option.or_assoc]
      split
      · rfl
      · rw [Option.none_or]

/-- The merged field of a name is the last one declared, or else the first one inherited. -/
theorem fieldNamed?_mergeFields_reverse (inherited declared : List Field) (name : String) :
    fieldNamed? (mergeFields inherited declared) name =
      (fieldNamed? declared.reverse name).or (fieldNamed? inherited name) := by
  rw [mergeFields, fieldNamed?_foldl_addDeclared_reverse, fieldNamed?_foldl_addInherited]
  rfl

theorem mem_names_mergeFields {inherited declared : List Field} {name : String} :
    name ∈ (mergeFields inherited declared).map Field.name ↔
      name ∈ inherited.map Field.name ∨ name ∈ declared.map Field.name := by
  rw [map_name_mergeFields, List.mem_eraseDups, List.mem_append]

/-- A merged field is found by its name. -/
theorem fieldNamed?_of_mem_mergeFields {inherited declared : List Field} {field : Field}
    (listed : field ∈ mergeFields inherited declared) :
    fieldNamed? (mergeFields inherited declared) field.name = some field := by
  have distinct : ((mergeFields inherited declared).map Field.name).Nodup := by
    rw [map_name_mergeFields]
    exact nodup_eraseDups _
  cases found : fieldNamed? (mergeFields inherited declared) field.name with
  | none => simpa using List.find?_eq_none.mp found field listed
  | some other =>
      have named : other.name = field.name := by simpa using List.find?_some found
      rw [List.inj_on_of_nodup_map distinct (List.mem_of_find?_eq_some found) listed named]

namespace Document

/-! ## Routes -/

/-- The fields of the entity of a name, inherited ones included. -/
def fullFieldsNamed (document : Document) (name : String) : List Field :=
  (document.model? name).elim [] Model.fullFields

/-- The first resolved parent of an entity that has a field of a name. -/
def provider? (document : Document) (name entity : String) : Option String :=
  (document.parentsNamed entity).find? fun parent =>
    (fieldNamed? (document.fullFieldsNamed parent) name).isSome

/-- An entity declares no field of a name but takes it from the first parent that has one. -/
structure TakesFrom (document : Document) (name heir parent : String) : Prop where
  undeclared : name ∉ document.ownFieldNames heir
  first : document.provider? name heir = some parent

/-- A way by which the field of a name comes from one entity to another. -/
abbrev Route (document : Document) (name : String) : String → String → Prop :=
  ReflTransGen (document.TakesFrom name)

/-- An entity inherits from another one, but only through parents that are listed after a given
one. -/
structure InheritsBehind (document : Document) (heir parent ancestor : String) : Prop where
  inherits : TransGen document.ResolvedEdge heir ancestor
  behind : ∃ earlier later, document.parentsNamed heir = earlier ++ parent :: later ∧
    (∀ other ∈ earlier ++ [parent], ¬ReflTransGen document.ResolvedEdge other ancestor) ∧
    ∃ other ∈ later, ReflTransGen document.ResolvedEdge other ancestor

/-- An entity inherits from another one through the first of its parents. -/
def InheritsFirst (document : Document) (heir ancestor : String) : Prop :=
  ∃ first others, document.parentsNamed heir = first :: others ∧
    ReflTransGen document.ResolvedEdge first ancestor

/-- The route from an owner to an heir passes by an entity: somewhere it branches off. -/
def PassesBy (document : Document) (name heir passed owner : String) : Prop :=
  ∃ child parent, document.Route name heir child ∧ document.TakesFrom name child parent ∧
    document.Route name parent owner ∧ document.InheritsBehind child parent passed

/-- What the routes of fields rest on: no entity is above itself, and the fields of each are put
together from those of its parents. -/
structure MergesParents (document : Document) : Prop where
  wellFounded : WellFounded fun parent child => document.ResolvedEdge child parent
  fullFields : ∀ model ∈ document.models, model.fullFields =
    mergeFields (model.resolvedParents.flatMap document.fullFieldsNamed) model.fields

instance (document : Document) (child parent : String) :
    Decidable (document.ResolvedEdge child parent) :=
  inferInstanceAs (Decidable (∃ model ∈ document.models,
    model.name = child ∧ parent ∈ model.resolvedParents))

section Lookups

variable {document : Document} {model : Model} (listed : model ∈ document.models)
include listed

theorem parentsNamed_name : document.parentsNamed model.name = model.resolvedParents := by
  rw [parentsNamed, model?_name listed]
  rfl

theorem ownFieldNames_name : document.ownFieldNames model.name = model.fields.map Field.name := by
  rw [ownFieldNames, model?_name listed]
  rfl

theorem fullFieldsNamed_name : document.fullFieldsNamed model.name = model.fullFields := by
  rw [fullFieldsNamed, model?_name listed]
  rfl

end Lookups

section Routes

variable {document : Document} {name : String}

theorem model?_eq_some_iff {model : Model} {entity : String} :
    document.model? entity = some model ↔ model ∈ document.models ∧ model.name = entity := by
  rw [← find?_models, find?_named_eq_some_iff document.nodup_names_models]

/-- What is read off the model of a name is read off a model. -/
theorem mem_readOff_iff {Item : Type} (readOff : Model → List Item) {entity : String} {item : Item} :
    item ∈ (document.model? entity).elim [] readOff ↔
      ∃ model ∈ document.models, model.name = entity ∧ item ∈ readOff model := by
  constructor
  · intro has
    cases found : document.model? entity with
    | none =>
        rw [found] at has
        contradiction
    | some model =>
        rw [found] at has
        obtain ⟨listed, named⟩ := model?_eq_some_iff.mp found
        exact ⟨model, listed, named, has⟩
  · rintro ⟨model, listed, rfl, has⟩
    rwa [model?_name listed]

theorem mem_fullFieldsNamed_iff {entity : String} {field : Field} :
    field ∈ document.fullFieldsNamed entity ↔
      ∃ model ∈ document.models, model.name = entity ∧ field ∈ model.fullFields :=
  mem_readOff_iff Model.fullFields

theorem mem_ownFieldNames_iff {entity : String} :
    name ∈ document.ownFieldNames entity ↔
      ∃ model ∈ document.models, model.name = entity ∧ name ∈ model.fields.map Field.name :=
  mem_readOff_iff fun model => model.fields.map Field.name

theorem mem_parentsNamed_iff {child parent : String} :
    parent ∈ document.parentsNamed child ↔ document.ResolvedEdge child parent :=
  mem_readOff_iff Model.resolvedParents

/-- A parent from which a field is taken is a resolved one. -/
theorem TakesFrom.edge {heir parent : String} (takes : document.TakesFrom name heir parent) :
    document.ResolvedEdge heir parent :=
  mem_parentsNamed_iff.mp (List.mem_of_find?_eq_some takes.first)

theorem Route.path {heir owner : String} (route : document.Route name heir owner) :
    ReflTransGen document.ResolvedEdge heir owner :=
  ReflTransGen.mono (fun _ _ => TakesFrom.edge) _ _ route

/-- Without a second parent there is no other way to inherit. -/
theorem inheritsFirst_of_single {heir ancestor : String}
    (single : (document.parentsNamed heir).length ≤ 1)
    (inherits : TransGen document.ResolvedEdge heir ancestor) :
    document.InheritsFirst heir ancestor := by
  obtain ⟨parent, edge, path⟩ := TransGen.head'_iff.mp inherits
  have isParent := mem_parentsNamed_iff.mpr edge
  cases parents : document.parentsNamed heir with
  | nil =>
      rw [parents] at isParent
      contradiction
  | cons first others =>
      rw [parents, List.length_cons] at single
      obtain rfl : others = [] := List.eq_nil_of_length_eq_zero (by omega)
      rw [parents, List.mem_singleton] at isParent
      exact ⟨first, [], parents, isParent ▸ path⟩

/-- The first parent is not listed behind another one. -/
theorem InheritsBehind.not_inheritsFirst {heir parent ancestor : String}
    (behind : document.InheritsBehind heir parent ancestor) :
    ¬document.InheritsFirst heir ancestor := by
  rintro ⟨first, others, isFirst, path⟩
  obtain ⟨earlier, later, split, apart, _⟩ := behind.behind
  refine apart first ?_ path
  rw [isFirst] at split
  cases earlier with
  | nil => exact List.mem_singleton.mpr (List.cons.inj split).1
  | cons other _ => exact (List.cons.inj split).1 ▸ List.mem_cons_self

namespace MergesParents

variable (merges : document.MergesParents)
include merges

theorem acyclic (entity : String) : ¬TransGen document.ResolvedEdge entity entity := by
  intro cycle
  have descends := Relation.transGen_swap.mpr cycle
  exact merges.wellFounded.transGen.asymmetric entity entity descends descends

/-- Every entity below one that declares a field has a field of that name. -/
theorem has_of_path {heir ancestor : String}
    (path : ReflTransGen document.ResolvedEdge heir ancestor)
    (declares : name ∈ document.ownFieldNames ancestor) :
    (fieldNamed? (document.fullFieldsNamed heir) name).isSome = true := by
  rw [isSome_fieldNamed?_iff]
  induction path using ReflTransGen.head_induction_on with
  | refl =>
      obtain ⟨model, listed, rfl, declared⟩ := mem_ownFieldNames_iff.mp declares
      rw [fullFieldsNamed_name listed, merges.fullFields model listed]
      exact mem_names_mergeFields.mpr (.inr declared)
  | head edge _ inductionHypothesis =>
      obtain ⟨model, listed, rfl, isParent⟩ := edge
      obtain ⟨field, has, named⟩ := List.mem_map.mp inductionHypothesis
      rw [fullFieldsNamed_name listed, merges.fullFields model listed, mem_names_mergeFields]
      exact .inl (List.mem_map.mpr ⟨field, List.mem_flatMap.mpr ⟨_, isParent, has⟩, named⟩)

/-- A field of an entity is declared by it or taken from a parent. -/
theorem declared_or_taken {model : Model} (listed : model ∈ document.models) {field : Field}
    (has : field ∈ model.fullFields) :
    field ∈ model.fields ∨
      ∃ parent ∈ document.models, document.TakesFrom field.name model.name parent.name ∧
        field ∈ parent.fullFields := by
  rw [merges.fullFields model listed] at has
  have found := fieldNamed?_of_mem_mergeFields has
  rw [fieldNamed?_mergeFields_reverse] at found
  cases own : fieldNamed? model.fields.reverse field.name with
  | some other =>
      rw [own, Option.some_or, Option.some.injEq] at found
      exact .inl (found ▸ List.mem_reverse.mp (List.mem_of_find?_eq_some own))
  | none =>
      have undeclared : field.name ∉ document.ownFieldNames model.name := by
        rw [ownFieldNames_name listed, ← List.mem_reverse, ← List.map_reverse]
        exact fieldNamed?_eq_none_iff.mp own
      rw [own, Option.none_or, fieldNamed?, List.find?_flatMap] at found
      obtain ⟨earlier, parent, later, split, above, none⟩ := List.findSome?_eq_some_iff.mp found
      obtain ⟨owner, isModel, rfl, has⟩ :=
        mem_fullFieldsNamed_iff.mp (List.mem_of_find?_eq_some above)
      refine .inr ⟨owner, isModel, ⟨undeclared, ?_⟩, has⟩
      rw [provider?, parentsNamed_name listed, List.find?_eq_some_iff_append]
      refine ⟨Option.isSome_of_eq_some above, earlier, later, split, fun other isEarlier => ?_⟩
      rw [fieldNamed?, none other isEarlier]
      rfl

/-- Every field comes by a route from an entity that declares it. -/
theorem exists_route {model : Model} (listed : model ∈ document.models) {field : Field}
    (has : field ∈ model.fullFields) :
    ∃ owner ∈ document.models, field ∈ owner.fields ∧
      document.Route field.name model.name owner.name := by
  induction named : model.name using merges.wellFounded.induction generalizing model with
  | _ entity inductionHypothesis =>
      subst named
      rcases merges.declared_or_taken listed has with declared | ⟨parent, isModel, takes, above⟩
      · exact ⟨model, listed, declared, .refl⟩
      · obtain ⟨owner, isOwner, declares, route⟩ :=
          inductionHypothesis parent.name takes.edge isModel above rfl
        exact ⟨owner, isOwner, declares, route.head takes⟩

/-- Where an entity takes a field from a parent that does not inherit from an entity which declares
one, it inherits from that entity through later parents only. -/
theorem inheritsBehind {heir parent passed : String} (takes : document.TakesFrom name heir parent)
    (inherits : TransGen document.ResolvedEdge heir passed)
    (declares : name ∈ document.ownFieldNames passed)
    (apart : ¬ReflTransGen document.ResolvedEdge parent passed) :
    document.InheritsBehind heir parent passed := by
  obtain ⟨_, earlier, later, split, none⟩ := List.find?_eq_some_iff_append.mp takes.first
  have notEarlier : ∀ other ∈ earlier, ¬ReflTransGen document.ResolvedEdge other passed := by
    intro other isEarlier path
    have lacks := none other isEarlier
    rw [merges.has_of_path path declares] at lacks
    contradiction
  refine ⟨inherits, earlier, later, split, ?_, ?_⟩
  · intro other isFirst
    rcases List.mem_append.mp isFirst with isEarlier | isParent
    · exact notEarlier other isEarlier
    · exact List.mem_singleton.mp isParent ▸ apart
  · obtain ⟨other, edge, path⟩ := TransGen.head'_iff.mp inherits
    have isParent : other ∈ earlier ++ parent :: later :=
      split ▸ mem_parentsNamed_iff.mpr edge
    rcases List.mem_append.mp isParent with isEarlier | isLater
    · exact absurd path (notEarlier other isEarlier)
    · rcases List.mem_cons.mp isLater with rfl | isLater
      · exact absurd path apart
      · exact ⟨other, isLater, path⟩

/-- A route to an entity passes by another one that is below it and declares a field, too. -/
theorem passesBy {heir owner passed : String} (route : document.Route name heir owner)
    (inherits : TransGen document.ResolvedEdge heir passed)
    (above : TransGen document.ResolvedEdge passed owner)
    (declares : name ∈ document.ownFieldNames passed) :
    document.PassesBy name heir passed owner := by
  induction route using ReflTransGen.head_induction_on with
  | refl => exact absurd (inherits.trans above) (merges.acyclic owner)
  | @head child parent takes later inductionHypothesis =>
      by_cases through : ReflTransGen document.ResolvedEdge parent passed
      · rcases Relation.reflTransGen_iff_eq_or_transGen.mp through with rfl | inheritsParent
        · -- The parent declares a field itself, so that the route ends with it.
          rcases ReflTransGen.cases_head later with rfl | ⟨_, takesOther, _⟩
          · exact absurd above (merges.acyclic _)
          · exact absurd declares takesOther.undeclared
        · obtain ⟨branching, next, before, branches⟩ := inductionHypothesis inheritsParent
          exact ⟨branching, next, before.head takes, branches⟩
      · exact ⟨child, parent, .refl, takes, later,
          merges.inheritsBehind takes inherits declares through⟩

/-- An entity from which everybody inherits through first parents overrides nothing that comes from
above it. -/
theorem not_overridden {heir owner between : String} (route : document.Route name heir owner)
    (inherits : TransGen document.ResolvedEdge heir between)
    (above : TransGen document.ResolvedEdge between owner)
    (first : ∀ entity, ReflTransGen document.ResolvedEdge heir entity →
      TransGen document.ResolvedEdge entity between → document.InheritsFirst entity between) :
    name ∉ document.ownFieldNames between := by
  intro declares
  obtain ⟨child, parent, before, _, _, behind⟩ := merges.passesBy route inherits above declares
  exact behind.not_inheritsFirst (first child before.path behind.inherits)

end MergesParents

end Routes

/-! ## Resolved documents -/

open InheritanceGraph

variable {document resolved : Document} {warnings : List Diagnostic}

/-- By name, the fields of an entity are those that the graph merges. -/
theorem fullFieldsNamed_resolved
    (succeeds : document.resolveInheritance = .ok (resolved, warnings))
    (place : Fin document.models.length) :
    resolved.fullFieldsNamed ((membersOf document).get place).name =
      (settled (membersOf document)).mergedFields.get place := by
  rw [fullFieldsNamed, model?_resolved succeeds, Option.elim_some, fullFields_resolvedMembers]

/-- The resolved parents of an entity are below it in a well-founded order. -/
theorem wellFounded_resolvedEdge
    (succeeds : document.resolveInheritance = .ok (resolved, warnings)) :
    WellFounded fun parent child => resolved.ResolvedEdge child parent := by
  have injective := injective_nameOf_settled document.namesDistinct_membersOf
  have accessible : ∀ place, Acc (fun parent child => resolved.ResolvedEdge child parent)
      ((settled (membersOf document)).nameOf place) := by
    intro place
    induction place using (acyclic_settled (membersOf document)).induction with
    | step place inductionHypothesis =>
        constructor
        intro name edge
        obtain ⟨child, parent, isEdge, same, rfl⟩ := (resolvedEdge_iff succeeds).mp edge
        exact inductionHypothesis parent (injective same ▸ isEdge)
  constructor
  intro name
  constructor
  intro other edge
  obtain ⟨_, parent, _, _, rfl⟩ := (resolvedEdge_iff succeeds).mp edge
  exact accessible parent

theorem mergesParents_of_resolveInheritance
    (succeeds : document.resolveInheritance = .ok (resolved, warnings)) :
    resolved.MergesParents where
  wellFounded := wellFounded_resolvedEdge succeeds
  fullFields := by
    intro model listed
    rw [models_of_resolveInheritance succeeds, ← map_get_finRange] at listed
    obtain ⟨place, _, rfl⟩ := List.mem_map.mp listed
    rw [fullFields_resolvedMembers, get_mergedFields (acyclic_settled _), fieldsFrom,
      resolvedParents_resolvedMembers, parentNames, List.flatMap_map, fields_resolvedMembers,
      members_settled]
    refine congrArg (mergeFields · _) (List.flatMap_congr fun parent _ => ?_)
    rw [nameOf_settled, fullFieldsNamed_resolved succeeds]

/-- How a field has come to an entity from the one that declares it. -/
structure ComesFrom (document : Document) (model : Model) (field : Field) (owner : Model) :
    Prop where
  isModel : owner ∈ document.models
  declares : field ∈ owner.fields
  /-- In between nobody declares a field of the name. Everyone takes it from the first parent that
  has one. -/
  route : document.Route field.name model.name owner.name
  /-- An entity in between that overrides the field is passed by. -/
  passes : ∀ between, TransGen document.ResolvedEdge model.name between →
    TransGen document.ResolvedEdge between owner.name →
    field.name ∈ document.ownFieldNames between →
    document.PassesBy field.name model.name between owner.name
  /-- It is not if everybody inherits from it through the first parent. -/
  first : ∀ between, TransGen document.ResolvedEdge model.name between →
    TransGen document.ResolvedEdge between owner.name →
    (∀ entity, ReflTransGen document.ResolvedEdge model.name entity →
      TransGen document.ResolvedEdge entity between → document.InheritsFirst entity between) →
    field.name ∉ document.ownFieldNames between
  /-- So it is not in a chain, where nobody has a second parent. -/
  chain : (∀ entity, ReflTransGen document.ResolvedEdge model.name entity →
      (document.parentsNamed entity).length ≤ 1) →
    ∀ between, TransGen document.ResolvedEdge model.name between →
      TransGen document.ResolvedEdge between owner.name →
      field.name ∉ document.ownFieldNames between

/-- Every field of a resolved model has come to it from the entity that declares it. If the fields
of a document say where they are declared, this is the entity that they name. -/
theorem resolveInheritance_comesFrom
    (succeeds : document.resolveInheritance = .ok (resolved, warnings)) :
    ∀ model ∈ resolved.models, ∀ field ∈ model.fullFields,
      ∃ owner, resolved.ComesFrom model field owner ∧
        (document.OwnsFields → field.declaredIn = owner.name) := by
  intro model listed field has
  have merges := mergesParents_of_resolveInheritance succeeds
  obtain ⟨owner, isModel, declares, route⟩ := merges.exists_route listed has
  have comesFrom : resolved.ComesFrom model field owner := {
    isModel
    declares
    route
    passes := fun _ inherits above => merges.passesBy route inherits above
    first := fun _ inherits above => merges.not_overridden route inherits above
    chain := fun single _ inherits above => merges.not_overridden route inherits above
      fun entity path => inheritsFirst_of_single (single entity path) }
  exact ⟨owner, comesFrom, fun owns =>
    (owns.of_resolveInheritance succeeds owner isModel).declaredIn field declares⟩

/-- No field of an entity has been overridden on any way to it from the entity that declares it. -/
def ClosestCounts (document : Document) : Prop :=
  ∀ model ∈ document.models, ∀ field ∈ model.fullFields,
    ∀ owner ∈ document.models, field ∈ owner.fields → field.declaredIn = owner.name →
      TransGen document.ResolvedEdge model.name owner.name →
      ∀ between, TransGen document.ResolvedEdge model.name between →
        TransGen document.ResolvedEdge between owner.name →
        field.name ∉ document.ownFieldNames between

/-! ## A fork -/

/-- A field of a record. -/
def recordNote : Field where
  name := "Note"
  typeName := "string"
  declaredIn := "Record"

/-- A model with two parents, of which the second one alone overrides what both inherit. -/
def forked : Document where
  dialect := .current
  entities := [
    .model { name := "Record", fields := [recordNote] },
    .model { name := "Left", inherits := ["Record"] },
    .model { name := "Right", inherits := ["Record"],
             fields := [{ name := "Note", typeName := "text", declaredIn := "Right" }] },
    .model { name := "Both", inherits := ["Left", "Right"] }]
  distinctNames := by decide

/-- What resolution makes of the fork. -/
def resolvedFork : Document :=
  forked.mapModels fun model =>
    { model with
      resolvedParents := model.inherits
      fullFields := if model.name = "Right" then model.fields else [recordNote] }

theorem resolveInheritance_forked : forked.resolveInheritance = .ok (resolvedFork, []) := by
  decide +kernel

theorem ownsFields_forked : forked.OwnsFields := by
  intro model listed
  have isOne : model ∈ [_, _, _, _] := listed
  simp only [List.mem_cons, List.not_mem_nil, or_false] at isOne
  rcases isOne with rfl | rfl | rfl | rfl
  all_goals exact ⟨by decide, by decide⟩

/-- The lower model has the field of the record. -/
theorem both_has_recordNote :
    ∃ model ∈ resolvedFork.models, model.name = "Both" ∧ recordNote ∈ model.fullFields := by
  decide +kernel

/-- One of its parents inherits from the record and declares the field itself. -/
theorem right_overrides :
    TransGen resolvedFork.ResolvedEdge "Both" "Right" ∧
      TransGen resolvedFork.ResolvedEdge "Right" "Record" ∧
      "Note" ∈ resolvedFork.ownFieldNames "Right" :=
  ⟨.single (by decide +kernel), .single (by decide +kernel), by decide +kernel⟩

/-- The field comes from the record by the first parent and passes by the second one. -/
theorem forked_comesFrom :
    forked.resolveInheritance = .ok (resolvedFork, []) ∧
      ∃ model ∈ resolvedFork.models, recordNote ∈ model.fullFields ∧
        (∃ owner, resolvedFork.ComesFrom model recordNote owner ∧ "Record" = owner.name) ∧
        resolvedFork.PassesBy "Note" "Both" "Right" "Record" := by
  obtain ⟨model, listed, named, has⟩ := both_has_recordNote
  obtain ⟨lower, upper, overrides⟩ := right_overrides
  obtain ⟨owner, comesFrom, ownerNamed⟩ :=
    resolveInheritance_comesFrom resolveInheritance_forked model listed recordNote has
  have isRecord : "Record" = owner.name := ownerNamed ownsFields_forked
  refine ⟨resolveInheritance_forked, model, listed, has, ⟨owner, comesFrom, isRecord⟩, ?_⟩
  rw [← named] at lower ⊢
  rw [isRecord] at upper ⊢
  exact comesFrom.passes "Right" lower upper overrides

/-- So the declaration which is overridden counts, and not the closer one. -/
theorem forked_not_closestCounts :
    forked.resolveInheritance = .ok (resolvedFork, []) ∧ ¬resolvedFork.ClosestCounts := by
  refine ⟨resolveInheritance_forked, fun closest => ?_⟩
  have declares : ∃ owner ∈ resolvedFork.models,
      owner.name = "Record" ∧ recordNote ∈ owner.fields := by
    decide +kernel
  obtain ⟨model, listed, named, has⟩ := both_has_recordNote
  obtain ⟨owner, isOwner, ownerNamed, declared⟩ := declares
  obtain ⟨lower, upper, overrides⟩ := right_overrides
  rw [← named] at lower
  rw [← ownerNamed] at upper
  exact closest model listed recordNote has owner isOwner declared ownerNamed.symm
    (lower.trans upper) "Right" lower upper overrides

end Document

end SchemaMarkup
