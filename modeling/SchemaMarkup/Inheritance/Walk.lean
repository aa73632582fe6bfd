/-!
# Depth-first walks

A finite graph is given by the list of parents of every node. A walk goes from a
node to its parents, in order, before it finishes the node, and never enters a
node twice. What matters afterwards is the order in which the nodes were finished
and the edges that led back to a node on the way: without them the graph has no
cycle, and every node is finished after all that it leads to.

The recursion goes down by `room`, the number of nodes that are not on the path
from the start to the node in hand. It cannot run out, because a path never holds
a node twice.
-/

namespace SchemaMarkup

/-- What a walk has found so far. -/
structure Walk (size : Nat) where
  /-- The nodes that are done with, in the order in which they were. -/
  finished : List (Fin size) := []
  /-- The edges from a node to one on the path to it. -/
  backEdges : List (Fin size × Fin size) := []
deriving DecidableEq, Repr

namespace Walk

variable {size : Nat}

/-- The walk with one more edge back to the path. -/
def addBackEdge (walk : Walk size) (edge : Fin size × Fin size) : Walk size :=
  { walk with backEdges := walk.backEdges ++ [edge] }

/-- The walk with one more node done. -/
def finish (walk : Walk size) (node : Fin size) : Walk size :=
  { walk with finished := walk.finished ++ [node] }

/-- Walks a node at the end of a path, unless it is done already. -/
def visit (parents : Fin size -> List (Fin size)) :
    (room : Nat) -> (path : List (Fin size)) -> Walk size -> Fin size -> Walk size
  | 0, _, walk, _ => walk
  | room + 1, path, walk, node =>
      if walk.finished.contains node then
        walk
      else
        let onPath := node :: path
        let step := fun (walk : Walk size) parent =>
          if onPath.contains parent then walk.addBackEdge (node, parent)
          else visit parents room onPath walk parent
        ((parents node).foldl step walk).finish node

/-- The walk from one node. -/
def startingAt (parents : Fin size -> List (Fin size)) (node : Fin size) : Walk size :=
  visit parents size [] {} node

/-- The walk from every node in turn. -/
def all (parents : Fin size -> List (Fin size)) : Walk size :=
  (List.finRange size).foldl (visit parents size []) {}

end Walk

end SchemaMarkup
