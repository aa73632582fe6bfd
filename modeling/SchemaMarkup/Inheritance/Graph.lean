import SchemaMarkup.Diagnostic.SchemaError
import SchemaMarkup.Inheritance.Walk
import SchemaMarkup.Schema.Document

/-!
# Inheritance graphs

The models and interfaces of a document, each with the list of its parents.
Enumerations take no part: what inherits from one is refused when the graph is
built, as is a name that belongs to nothing, an interface that inherits from a
model, and a second default entity. A graph is built only once nothing is left to
refuse, so building it is a check and then a plain definition.
-/

namespace SchemaMarkup

/-- The members of an inheritance hierarchy and the parents of each. -/
structure InheritanceGraph (size : Nat) where
  members : Vector Model size
  parents : Vector (List (Fin size)) size
deriving DecidableEq

namespace InheritanceGraph

/-- The fault of an inherited name, if there is one. -/
def parentFault? (document : Document) (model : Model) (name : String) : Option SchemaError :=
  match findNamed? Model.name document.models name with
  | some parent =>
      if model.isInterface && parent.kind == .model then
        some (.invalidInheritance (.interfaceFromModel model.name parent.name) model.location)
      else
        none
  | none =>
      if (document.lookup? name).any fun entity => entity.kind == .enumeration then
        some (.invalidInheritance (.fromEnumeration model.name name) model.location)
      else
        some (.unknownReference model.name name model.location)

/-- The fault of the second default entity, if there is one. -/
def defaultFault? (models : List Model) : Option SchemaError :=
  match models.filter Model.isDefault with
  | first :: second :: _ =>
      some (.duplicateDefaultEntity first.name second.name second.location)
  | _ => none

/-- The first fault of the inheritance that a document declares. -/
def fault? (document : Document) : Option SchemaError :=
  (defaultFault? document.models).or
    (document.models.findSome? fun model =>
      model.inherits.findSome? (parentFault? document model))

variable {size : Nat}

/-- The place of a name among some models: as it is written, or else in any case. -/
def placeOf? (members : Vector Model size) (name : String) : Option (Fin size) :=
  findNamed? (fun place => (members.get place).name) (List.finRange size) name

/-- The graph of some models. A parent that is named twice counts once. -/
def ofMembers (members : Vector Model size) : InheritanceGraph size where
  members := members
  parents := members.map fun model => (model.inherits.filterMap (placeOf? members)).eraseDups

/-- The models of a document as members of a graph. -/
def membersOf (document : Document) : Vector Model document.models.length where
  toArray := document.models.toArray
  size_toArray := by simp

/-- The graph of the inheritance that a document declares. -/
def build (document : Document) : Except SchemaError (InheritanceGraph document.models.length) :=
  match fault? document with
  | some fault => .error fault
  | none => .ok (ofMembers (membersOf document))

/-- The name of a member. -/
def nameOf (graph : InheritanceGraph size) (member : Fin size) : String :=
  (graph.members.get member).name

/-- The parents of a member. -/
def parentsOf (graph : InheritanceGraph size) (member : Fin size) : List (Fin size) :=
  graph.parents.get member

/-- The names of the parents of a member. -/
def parentNames (graph : InheritanceGraph size) (member : Fin size) : List String :=
  (graph.parentsOf member).map graph.nameOf

/-- The member of a name: as it is written, or else in any case. -/
def resolve? (graph : InheritanceGraph size) (name : String) : Option (Fin size) :=
  placeOf? graph.members name

/-- The member that is marked as the default entity. -/
def default? (graph : InheritanceGraph size) : Option (Fin size) :=
  (List.finRange size).find? fun member => (graph.members.get member).isDefault

/-- Whether one member is another or one of its descendants. -/
def reaches (graph : InheritanceGraph size) (member ancestor : Fin size) : Bool :=
  (Walk.startingAt graph.parentsOf member).finished.contains ancestor

/-- Every member, after all of its ancestors if there is no cycle. -/
def topologicalOrder (graph : InheritanceGraph size) : List (Fin size) :=
  (Walk.all graph.parentsOf).finished

/-- The graph with other parents for one member. -/
def setParents (graph : InheritanceGraph size) (member : Fin size) (parents : List (Fin size)) :
    InheritanceGraph size :=
  { graph with parents := graph.parents.set member parents member.isLt }

end InheritanceGraph

end SchemaMarkup
