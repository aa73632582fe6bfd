import SchemaMarkup.Inheritance.Repair

/-!
# Resolution of inheritance

A resolved model names its parents as repair left them and lists all its fields,
inherited ones first. Of inherited fields of one name the first counts, and a
field that the model declares itself takes the place of the inherited one. The
parent of an edge that repair removed is also struck, in any case, from the names
that the header gave, so a resolved document declares no cycle.
-/

namespace SchemaMarkup

/-- The fields with one more, unless there is one of its name. -/
def addInherited (fields : List Field) (field : Field) : List Field :=
  if fields.any fun other => other.name == field.name then fields else fields ++ [field]

/-- The fields with one more, in the place of the one of its name. -/
def addDeclared (fields : List Field) (field : Field) : List Field :=
  if fields.any fun other => other.name == field.name then
    fields.map fun other => if other.name == field.name then field else other
  else
    fields ++ [field]

/-- The fields that a model has from its parents and from itself. -/
def mergeFields (inherited declared : List Field) : List Field :=
  declared.foldl addDeclared (inherited.foldl addInherited [])

namespace InheritanceGraph

variable {size : Nat}

/-- The fields of every member. Each is put together from the fields of its parents, which
come before it in the order of the walk. -/
def mergedFields (graph : InheritanceGraph size) : Vector (List Field) size :=
  graph.topologicalOrder.foldl
    (fun merged (member : Fin size) =>
      merged.set member
        (mergeFields ((graph.parentsOf member).flatMap fun parent => merged.get parent)
          (graph.members.get member).fields) member.isLt)
    (Vector.replicate size [])

/-- The warning on a removed edge, which also says what took its place. -/
def repairWarning (graph : InheritanceGraph size) (repair : Repair size) : Diagnostic :=
  let child := graph.nameOf repair.child
  let warning := Diagnostic.cycleDetected child (graph.nameOf repair.removedParent)
    (graph.members.get repair.child).location
  match graph.default?.filter fun _ => repair.isReattached with
  | some fallback => warning.withRelated (graph.members.get fallback).location
      s!"'{child}' now inherits from the default entity '{graph.nameOf fallback}'"
  | none => warning

/-- The inherited names of a member without those of removed edges, in any case. -/
def keptInherits (graph : InheritanceGraph size) (repairs : List (Repair size))
    (member : Fin size) : List String :=
  (graph.members.get member).inherits.filter fun name =>
    !repairs.any fun repair =>
      repair.child == member && equalIgnoringCase name (graph.nameOf repair.removedParent)

/-- The member of exactly this name. -/
def find? (graph : InheritanceGraph size) (name : String) : Option (Fin size) :=
  (List.finRange size).find? fun member => graph.nameOf member == name

/-- The model with its parents and fields as the graph has them. -/
def resolveModel (graph : InheritanceGraph size) (repairs : List (Repair size))
    (merged : Vector (List Field) size) (model : Model) : Model :=
  match graph.find? model.name with
  | some member => { model with
      inherits := graph.keptInherits repairs member
      resolvedParents := graph.parentNames member
      fullFields := merged.get member }
  | none => model

/-- Resolution renames no model. -/
theorem name_resolveModel (graph : InheritanceGraph size) (repairs : List (Repair size))
    (merged : Vector (List Field) size) (model : Model) :
    (graph.resolveModel repairs merged model).name = model.name := by
  unfold resolveModel
  split <;> rfl

end InheritanceGraph

namespace Document

/-- The document with its inheritance resolved, and a warning for each edge that was removed. -/
def resolveInheritance (document : Document) : Except SchemaError (Document × List Diagnostic) := do
  let declared <- InheritanceGraph.build document
  let (repairs, acyclic) := declared.breakCycles
  let (_, graph) := acyclic.applyDefaultFallback
  let resolved := document.mapModels (graph.resolveModel repairs graph.mergedFields)
    (graph.name_resolveModel repairs graph.mergedFields)
  return (resolved, repairs.map graph.repairWarning)

end Document

end SchemaMarkup
