import SchemaMarkup.Inheritance.Graph

/-!
# Repair of inheritance

A cycle is broken at the edges that lead a depth-first walk back to its own path:
each is taken from the member that declares it. Then the default entity becomes
the last parent of every model that is not abstract and has no model as a parent,
except where that would close a new cycle.
-/

namespace SchemaMarkup

/-- An edge that was taken out of a cycle. -/
structure Repair (size : Nat) where
  child : Fin size
  removedParent : Fin size
  /-- Whether the default entity became a parent of the child in its place. -/
  isReattached : Bool := false
deriving DecidableEq, Repr

namespace InheritanceGraph

variable {size : Nat}

/-- Whether a member is a model that is not abstract and has no model as a parent. -/
def needsDefault (graph : InheritanceGraph size) (member : Fin size) : Bool :=
  let model := graph.members.get member
  model.kind == .model && !model.isAbstract &&
    !(graph.parentsOf member).any fun parent => (graph.members.get parent).kind == .model

/-- The default entity, if it can become a parent of the member without closing a cycle. -/
def attachable? (graph : InheritanceGraph size) (member : Fin size) : Option (Fin size) :=
  graph.default?.filter fun fallback =>
    member != fallback && !(graph.parentsOf member).contains fallback &&
      !graph.reaches fallback member

/-- The graph with the default entity as the last parent of a member, where that is possible. -/
def attachDefault? (graph : InheritanceGraph size) (member : Fin size) :
    Option (InheritanceGraph size) :=
  (graph.attachable? member).map fun fallback =>
    graph.setParents member (graph.parentsOf member ++ [fallback])

/-- The edges at which cycles are broken, each from a member to a parent. -/
def backEdges (graph : InheritanceGraph size) : List (Fin size × Fin size) :=
  (Walk.all graph.parentsOf).backEdges

/-- The graph without some edges. -/
def removeEdges (graph : InheritanceGraph size) (edges : List (Fin size × Fin size)) :
    InheritanceGraph size :=
  { graph with
    parents := Vector.ofFn fun child =>
      (graph.parentsOf child).filter fun parent => !edges.contains (child, parent) }

/-- Gives the default entity to the children of removed edges that need it, in order. -/
def reattach (graph : InheritanceGraph size) :
    List (Fin size × Fin size) -> List (Repair size) × InheritanceGraph size
  | [] => ([], graph)
  | (child, removedParent) :: later =>
      match if graph.needsDefault child then graph.attachDefault? child else none with
      | some attached =>
          let (repairs, final) := attached.reattach later
          ({ child, removedParent, isReattached := true } :: repairs, final)
      | none =>
          let (repairs, final) := graph.reattach later
          ({ child, removedParent } :: repairs, final)

/-- Breaks every cycle and says how. -/
def breakCycles (graph : InheritanceGraph size) : List (Repair size) × InheritanceGraph size :=
  (graph.removeEdges graph.backEdges).reattach graph.backEdges

/-- Gives the default entity to some members, in order, and says which could take it. -/
def attachAll (graph : InheritanceGraph size) :
    List (Fin size) -> List (Fin size) × InheritanceGraph size
  | [] => ([], graph)
  | member :: later =>
      match graph.attachDefault? member with
      | some attached =>
          let (members, final) := attached.attachAll later
          (member :: members, final)
      | none => graph.attachAll later

/-- Gives the default entity to every member that needs it, and says which could take it. -/
def applyDefaultFallback (graph : InheritanceGraph size) :
    List (Fin size) × InheritanceGraph size :=
  graph.attachAll ((List.finRange size).filter graph.needsDefault)

end InheritanceGraph

end SchemaMarkup
