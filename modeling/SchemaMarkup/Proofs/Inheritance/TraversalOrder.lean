import SchemaMarkup.Proofs.Inheritance.MergedFields

/-!
# The order of a traversal

`InheritanceGraph.topologicalOrder` is defined by recursion: a node goes into the order when all of
its parents have been visited. The same order comes from a loop with a stack of frames, each a node
and the position up to which its parents have been looked at (`Traversal.step`). The loop marks a
node as soon as it is pushed, before anything of it is in the order, so a marked parent may be
one that is still on the stack. `Walk.Scans` tells what such a loop does between the push of a node
and its pop (`Traversal.run_of_scans`), and with that the two orders are the same for every graph.

Every member is in the order once, whether the graph has cycles or not, and all ancestors come
before their descendants exactly if it has none (`InheritanceGraph.topologicalOrder_linearizes`).
-/

open Relation (TransGen)

namespace SchemaMarkup

variable {size : Nat} {parents : Fin size → List (Fin size)}

/-! ## A loop with a stack -/

/-- A node, and the position of the next of its parents. -/
structure Frame (size : Nat) where
  node : Fin size
  position : Nat := 0
deriving DecidableEq

/-- The state of the loop. -/
structure Traversal (size : Nat) where
  /-- The nodes that have been pushed so far. -/
  marked : Finset (Fin size) := ∅
  /-- The nodes in progress, the last one first. -/
  stack : List (Frame size) := []
  order : List (Fin size) := []
deriving DecidableEq

namespace Traversal

/-- Puts a node on the stack and marks it. -/
def push (state : Traversal size) (node : Fin size) : Traversal size :=
  { state with marked := insert node state.marked, stack := { node } :: state.stack }

/-- One round of the loop: the topmost node goes on to its next parent, or has no other one and goes
into the order. -/
def step (parents : Fin size → List (Fin size)) (state : Traversal size) : Traversal size :=
  match state.stack with
  | [] => state
  | top :: below =>
      match (parents top.node)[top.position]? with
      | some parent =>
          let advanced :=
            { state with stack := { top with position := top.position + 1 } :: below }
          if parent ∈ state.marked then advanced else advanced.push parent
      | none => { state with stack := below, order := state.order ++ [top.node] }

/-- The rounds that a stack takes if nothing more is pushed: one for each parent that has not been
looked at, and one for each node. -/
def pending (parents : Fin size → List (Fin size)) : List (Frame size) → Nat
  | [] => 0
  | frame :: below =>
      (parents frame.node).length - frame.position + 1 + pending parents below

/-- What bounds the rounds that are left: the nodes that may still be pushed, and then the stack. -/
def measure (parents : Fin size → List (Fin size)) (state : Traversal size) : Nat × Nat :=
  (size - state.marked.card, pending parents state.stack)

/-- A node that is pushed is one of those that were left. -/
theorem unmarked_push_lt {state : Traversal size} {node : Fin size}
    (fresh : node ∉ state.marked) :
    size - (state.push node).marked.card < size - state.marked.card := by
  have marked : (state.push node).marked.card = state.marked.card + 1 :=
    Finset.card_insert_of_notMem fresh
  have bounded : (state.push node).marked.card ≤ size := card_finset_fin_le _
  omega

/-- Every round of the loop gets closer to its end. -/
theorem measure_step_lt {state : Traversal size} (busy : state.stack ≠ []) :
    Prod.Lex (· < ·) (· < ·) ((state.step parents).measure parents) (state.measure parents) := by
  obtain ⟨top, below, isStack⟩ := List.exists_cons_of_ne_nil busy
  simp only [step, isStack]
  split
  · next parent isParent =>
      obtain ⟨inside, _⟩ := List.getElem?_eq_some_iff.mp isParent
      split
      · refine Prod.Lex.right _ ?_
        simp only [isStack, pending]
        omega
      · next fresh => exact Prod.Lex.left _ _ (unmarked_push_lt fresh)
  · refine Prod.Lex.right _ ?_
    simp only [isStack, pending]
    omega

/-- Runs the loop until the stack is empty. -/
def run (parents : Fin size → List (Fin size)) (state : Traversal size) : Traversal size :=
  if state.stack = [] then state else run parents (state.step parents)
termination_by state.measure parents
decreasing_by exact measure_step_lt ‹_›

/-- Runs the loop from a node, unless it is marked. -/
def runFrom (parents : Fin size → List (Fin size)) (state : Traversal size) (root : Fin size) :
    Traversal size :=
  if root ∈ state.marked then state else run parents (state.push root)

end Traversal

/-- The order in which a loop with a stack goes over the members of a graph. -/
def InheritanceGraph.stackOrder (graph : InheritanceGraph size) : List (Fin size) :=
  ((List.finRange size).foldl (Traversal.runFrom graph.parentsOf) {}).order

namespace Traversal

/-! ## The loop scans -/

theorem run_of_busy {state : Traversal size} (busy : state.stack ≠ []) :
    run parents state = run parents (state.step parents) := by
  rw [run, if_neg busy]

theorem run_of_idle {state : Traversal size} (idle : state.stack = []) :
    run parents state = state := by
  rw [run, if_pos idle]

/-- The state of the loop at some point of a walk: the finished nodes are in the order, and those on
the path are marked as well. -/
def during (walk : Walk size) (path : List (Fin size)) (stack : List (Frame size)) :
    Traversal size where
  marked := (walk.finished ++ path).toFinset
  stack
  order := walk.finished

variable {walk last : Walk size} {path todo : List (Fin size)} {stack below : List (Frame size)}
  {node parent : Fin size} {position : Nat}

theorem mem_marked_during (stack : List (Frame size)) :
    node ∈ (during walk path stack).marked ↔ node ∈ walk.finished ∨ node ∈ path := by
  simp [during]

/-- To push a node that is not marked is to go on to it. -/
theorem push_during (node : Fin size) :
    (during walk path stack).push node = during walk (node :: path) ({ node } :: stack) := by
  have marked : insert node (walk.finished ++ path).toFinset =
      (walk.finished ++ node :: path).toFinset := by
    ext other
    simp only [Finset.mem_insert, List.mem_toFinset, List.mem_append, List.mem_cons]
    tauto
  simp only [during, push, marked]

/-- A parent is passed over if it is marked, and otherwise comes to stand on top of the stack. -/
theorem step_of_parent (isParent : (parents node)[position]? = some parent) :
    (during walk path ({ node, position } :: below)).step parents =
      if parent ∈ walk.finished ∨ parent ∈ path then
        during walk path ({ node, position := position + 1 } :: below)
      else
        during walk (parent :: path)
          ({ node := parent } :: { node, position := position + 1 } :: below) := by
  rw [← push_during]
  simp only [step, during, isParent, List.mem_toFinset, List.mem_append]

/-- A node without a further parent is finished. -/
theorem step_of_done (isDone : (parents node)[position]? = none) :
    (during walk (node :: path) ({ node, position } :: below)).step parents =
      during (walk.finish node) path below := by
  simp [step, during, isDone]

/-- From the push of a node to its pop the loop does what a scan of its parents does, and leaves the
rest of the stack alone. -/
theorem run_of_scans (scans : Walk.Scans parents path walk todo last) {outer : List (Fin size)}
    (isPath : path = node :: outer) (isRest : (parents node).drop position = todo)
    (below : List (Frame size)) :
    run parents (during walk path ({ node, position } :: below)) =
      run parents (during (last.finish node) outer below) := by
  have goesOn : ∀ {node parent position rest}, (parents node).drop position = parent :: rest →
      (parents node)[position]? = some parent ∧ (parents node).drop (position + 1) = rest := by
    intro node parent position rest isRest
    rw [← List.head?_drop, ← List.tail_drop, isRest]
    exact ⟨rfl, rfl⟩
  -- The stack below the node is arbitrary: it is not looked at before the node is popped.
  induction scans generalizing node outer position below with
  | nil =>
      have isDone : (parents node)[position]? = none := by
        rw [← List.head?_drop, isRest]
        rfl
      rw [isPath, run_of_busy (List.cons_ne_nil _ _), step_of_done isDone]
  | back onPath _ inductionHypothesis =>
      obtain ⟨isParent, isLater⟩ := goesOn isRest
      rw [run_of_busy (List.cons_ne_nil _ _), step_of_parent isParent, if_pos (.inr onPath)]
      exact inductionHypothesis isPath isLater below
  | skip _ done _ inductionHypothesis =>
      obtain ⟨isParent, isLater⟩ := goesOn isRest
      rw [run_of_busy (List.cons_ne_nil _ _), step_of_parent isParent, if_pos (.inl done)]
      exact inductionHypothesis isPath isLater below
  | enter offPath fresh _ _ belowHypothesis laterHypothesis =>
      -- The parent is run to its own pop first, with the frame of the node underneath.
      obtain ⟨isParent, isLater⟩ := goesOn isRest
      rw [run_of_busy (List.cons_ne_nil _ _), step_of_parent isParent,
        if_neg (not_or.mpr ⟨fresh, offPath⟩), belowHypothesis rfl List.drop_zero]
      exact laterHypothesis isPath isLater below

/-- With an empty stack the loop goes over roots as a scan does. -/
theorem foldl_runFrom_of_scans (scans : Walk.Scans parents path walk todo last)
    (isPath : path = []) :
    todo.foldl (runFrom parents) (during walk path []) = during last path [] := by
  induction scans with
  | nil => rfl
  | back => contradiction
  | skip _ done _ inductionHypothesis =>
      rw [List.foldl_cons, runFrom, if_pos ((mem_marked_during []).mpr (.inl done))]
      exact inductionHypothesis isPath
  | enter offPath fresh below _ _ laterHypothesis =>
      have unmarked := mt (mem_marked_during []).mp (not_or.mpr ⟨fresh, offPath⟩)
      rw [List.foldl_cons, runFrom, if_neg unmarked, push_during,
        run_of_scans below rfl List.drop_zero, run_of_idle rfl]
      exact laterHypothesis isPath

end Traversal

namespace InheritanceGraph

variable {graph : InheritanceGraph size}

/-- The loop puts the members in the order of the recursion. -/
theorem stackOrder_eq_topologicalOrder (graph : InheritanceGraph size) :
    graph.stackOrder = graph.topologicalOrder := by
  have start : ({} : Traversal size) = .during {} [] [] := rfl
  rw [stackOrder, start, Traversal.foldl_runFrom_of_scans Walk.scans_all rfl]
  rfl

/-! ## The order -/

/-- An order in which every member comes after all its ancestors. -/
def AncestorsFirst (graph : InheritanceGraph size) (order : List (Fin size)) : Prop :=
  ∀ earlier member later, order = earlier ++ member :: later →
    ∀ ancestor, TransGen graph.Edge member ancestor → ancestor ∈ earlier

/-- Where members come after their parents they come after all their ancestors. -/
theorem ParentsFirst.ancestorsFirst {order : List (Fin size)} (first : graph.ParentsFirst order) :
    graph.AncestorsFirst order := by
  intro earlier member later whole ancestor path
  induction path using TransGen.head_induction_on generalizing earlier later with
  | single edge => exact first earlier _ later whole ancestor edge
  | @head member parent edge _ inductionHypothesis =>
      obtain ⟨front, back, rfl⟩ :=
        List.append_of_mem (first earlier member later whole parent edge)
      have listed := inductionHypothesis front (back ++ member :: later) (by rw [whole]; simp)
      exact List.mem_append_left _ listed

/-- Distinct members that all come after their ancestors make up no cycle. -/
theorem AncestorsFirst.acyclic {order : List (Fin size)} (first : graph.AncestorsFirst order)
    (once : ∀ member, order.count member = 1) : graph.Acyclic := by
  intro member cycle
  have listed : member ∈ order := List.count_pos_iff.mp (by rw [once]; exact Nat.one_pos)
  obtain ⟨earlier, later, rfl⟩ := List.append_of_mem listed
  have again := List.count_pos_iff.mpr (first earlier member later rfl member cycle)
  have total := once member
  rw [List.count_append, List.count_cons_self] at total
  omega

/-- An order of all members. Ancestors come first in it as long as there are no cycles. -/
structure Linearizes (graph : InheritanceGraph size) (order : List (Fin size)) : Prop where
  once : ∀ member, order.count member = 1
  ancestorsFirst_iff : graph.AncestorsFirst order ↔ graph.Acyclic

/-- Every member is in the order once, whatever the graph, and all ancestors come before their
descendants exactly if the graph has no cycle. A loop that marks the members as they are put
on its stack finds the same order. -/
theorem topologicalOrder_linearizes (graph : InheritanceGraph size) :
    graph.Linearizes graph.topologicalOrder ∧ graph.stackOrder = graph.topologicalOrder := by
  have once : ∀ member, graph.topologicalOrder.count member = 1 := fun member =>
    List.count_eq_one_of_mem Walk.sound_all.distinct (Walk.mem_finished_all member)
  refine ⟨⟨once, fun first => first.acyclic once, fun acyclic => ?_⟩,
    stackOrder_eq_topologicalOrder graph⟩
  exact (parentsFirst_topologicalOrder acyclic).ancestorsFirst

end InheritanceGraph

end SchemaMarkup
