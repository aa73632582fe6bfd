import SchemaMarkup.Proofs.Inheritance.CycleRepair
import SchemaMarkup.Proofs.Inheritance.TraversalOrder

/-!
# The loop of cycle repair

`InheritanceGraph.breakCycles` first walks a graph for its back edges and then takes them all out.
The same comes of a loop with a stack that edits the graph while it walks it (`RepairLoop.step`): an
edge that leads back to the stack is taken out of the list of parents by its position, and the
position stays where it is, since the next parent moves up to it.

So the parents of a member in progress are neither the ones that it began with nor the ones that it
ends with. `RepairLoop.Scanning` says what they are: of those that have been looked at, the ones
that lead off the stack, and then all that have not been looked at. Each round of the loop keeps
that, and `InheritanceGraph.breakCyclesInPlace_eq` follows by one induction over `Walk.Scans`.
-/

namespace SchemaMarkup

variable {size : Nat}

/-! ## The loop -/

/-- How far a member has come. -/
inductive VisitState where
  | unvisited
  | onStack
  | done
deriving DecidableEq

/-- The state of the loop. -/
structure RepairLoop (size : Nat) where
  graph : InheritanceGraph size
  visits : Vector VisitState size := Vector.replicate size .unvisited
  /-- The members in progress, the last one first. -/
  stack : List (Frame size) := []
  repairs : List (Repair size) := []

namespace RepairLoop

/-- The state with another visit of a member. -/
def mark (state : RepairLoop size) (member : Fin size) (visit : VisitState) : RepairLoop size :=
  { state with visits := state.visits.set member visit member.isLt }

/-- Puts a member on the stack. -/
def push (state : RepairLoop size) (member : Fin size) : RepairLoop size :=
  { state.mark member .onStack with stack := { node := member } :: state.stack }

/-- Takes an edge out of the graph, by the position of the parent. -/
def remove (state : RepairLoop size) (frame : Frame size) (parent : Fin size) : RepairLoop size :=
  { state with
    graph := state.graph.setParents frame.node
      ((state.graph.parentsOf frame.node).eraseIdx frame.position)
    repairs := state.repairs ++ [{ child := frame.node, removedParent := parent }] }

/-- One round of the loop: the topmost member loses the edge to its next parent, goes on to it or
passes it over, or has no other parent and is done. -/
def step (state : RepairLoop size) : RepairLoop size :=
  match state.stack with
  | [] => state
  | top :: below =>
      match (state.graph.parentsOf top.node)[top.position]? with
      | none => { state.mark top.node .done with stack := below }
      | some parent =>
          let advanced :=
            { state with stack := { top with position := top.position + 1 } :: below }
          match state.visits.get parent with
          | .onStack => state.remove top parent
          | .unvisited => advanced.push parent
          | .done => advanced

@[simp] theorem visits_mark (state : RepairLoop size) (member other : Fin size)
    (visit : VisitState) :
    (state.mark member visit).visits.get other =
      if other = member then visit else state.visits.get other := by
  have set : (state.visits.set member visit member.isLt).get other =
      if member.val = other.val then visit else state.visits.get other :=
    Vector.getElem_set member.isLt other.isLt
  rw [mark, set]
  exact if_congr (by rw [eq_comm, Fin.ext_iff]) rfl rfl

/-! ## The end of the loop -/

/-- The members that have not been visited. -/
def unvisited (state : RepairLoop size) : Finset (Fin size) :=
  Finset.univ.filter fun member => state.visits.get member = .unvisited

/-- What bounds the rounds that are left: the members that may still be pushed, and then one round
for each parent on the stack that has not been looked at and one for each member. -/
def measure (state : RepairLoop size) : Nat × Nat :=
  (state.unvisited.card, Traversal.pending state.graph.parentsOf state.stack)

/-- A member that is marked as visited is not unvisited any more. -/
theorem unvisited_mark (state : RepairLoop size) (member : Fin size) {visit : VisitState}
    (visited : visit ≠ .unvisited) :
    (state.mark member visit).unvisited = state.unvisited.erase member := by
  ext other
  by_cases same : other = member <;> simp [unvisited, same, visited]

/-- The fewer parents, the fewer rounds a stack takes. -/
theorem pending_mono {parents others : Fin size → List (Fin size)}
    (fewer : ∀ member, (parents member).length ≤ (others member).length)
    (stack : List (Frame size)) :
    Traversal.pending parents stack ≤ Traversal.pending others stack := by
  induction stack with
  | nil => exact Nat.le_refl 0
  | cons frame below inductionHypothesis =>
      have fewerHere := fewer frame.node
      simp only [Traversal.pending]
      omega

/-- Taking out an edge that has not been looked at saves a round. -/
theorem pending_remove_lt {state : RepairLoop size} {top : Frame size} {below : List (Frame size)}
    (inside : top.position < (state.graph.parentsOf top.node).length) (parent : Fin size) :
    Traversal.pending (state.remove top parent).graph.parentsOf (top :: below) <
      Traversal.pending state.graph.parentsOf (top :: below) := by
  have fewer : ∀ member, ((state.remove top parent).graph.parentsOf member).length ≤
      (state.graph.parentsOf member).length := by
    intro member
    rw [remove, InheritanceGraph.parentsOf_setParents]
    split
    · next same => rw [same]; exact List.length_eraseIdx_le _ _
    · exact Nat.le_refl _
  have fewerBelow := pending_mono fewer below
  have erased : ((state.remove top parent).graph.parentsOf top.node).length + 1 =
      (state.graph.parentsOf top.node).length := by
    rw [remove, InheritanceGraph.parentsOf_setParents, if_pos rfl,
      List.length_eraseIdx_of_lt inside]
    omega
  simp only [Traversal.pending]
  omega

/-- Every round of the loop gets closer to its end. -/
theorem measure_step_lt {state : RepairLoop size} (busy : state.stack ≠ []) :
    Prod.Lex (· < ·) (· < ·) state.step.measure state.measure := by
  obtain ⟨top, below, isStack⟩ := List.exists_cons_of_ne_nil busy
  simp only [step, isStack]
  split
  · have fewer : (state.mark top.node .done).unvisited.card ≤ state.unvisited.card := by
      rw [unvisited_mark _ _ (by decide)]
      exact Finset.card_erase_le
    have closer : Traversal.pending state.graph.parentsOf below <
        Traversal.pending state.graph.parentsOf state.stack := by
      simp only [isStack, Traversal.pending]
      omega
    exact Prod.Lex.right' _ fewer closer
  · next parent isParent =>
      obtain ⟨inside, _⟩ := List.getElem?_eq_some_iff.mp isParent
      split
      · have stack : (state.remove top parent).stack = top :: below := isStack
        refine Prod.Lex.right _ ?_
        rw [stack, isStack]
        exact pending_remove_lt inside parent
      · next isUnvisited =>
        have pushed := unvisited_mark state parent (by decide : VisitState.onStack ≠ .unvisited)
        have listed : parent ∈ state.unvisited := by simp [unvisited, isUnvisited]
        exact Prod.Lex.left _ _ (pushed ▸ Finset.card_erase_lt_of_mem listed)
      · refine Prod.Lex.right _ ?_
        simp only [isStack, Traversal.pending]
        omega

/-- Runs the loop until the stack is empty. -/
def run (state : RepairLoop size) : RepairLoop size :=
  if state.stack = [] then state else run state.step
termination_by state.measure
decreasing_by exact measure_step_lt ‹_›

/-- Runs the loop from a member, unless it has been visited. -/
def runFrom (state : RepairLoop size) (root : Fin size) : RepairLoop size :=
  if state.visits.get root = .unvisited then run (state.push root) else state

/-- Gives the default entity to the child of a repair, if it needs it and can take it. -/
def reattach (served : List (Repair size) × InheritanceGraph size) (repair : Repair size) :
    List (Repair size) × InheritanceGraph size :=
  let (repairs, graph) := served
  match if graph.needsDefault repair.child then graph.attachDefault? repair.child else none with
  | some attached => (repairs ++ [{ repair with isReattached := true }], attached)
  | none => (repairs ++ [repair], graph)

end RepairLoop

/-- Breaks every cycle while the graph is walked, and serves the children of the edges that were
taken out afterwards. -/
def InheritanceGraph.breakCyclesInPlace (graph : InheritanceGraph size) :
    List (Repair size) × InheritanceGraph size :=
  let walked := (List.finRange size).foldl RepairLoop.runFrom { graph }
  walked.repairs.foldl RepairLoop.reattach ([], walked.graph)

namespace RepairLoop

/-! ## The loop scans -/

theorem run_of_busy {state : RepairLoop size} (busy : state.stack ≠ []) :
    run state = run state.step := by
  rw [run, if_neg busy]

theorem run_of_idle {state : RepairLoop size} (idle : state.stack = []) : run state = state := by
  rw [run, if_pos idle]

/-- The repair that an edge calls for. -/
def repairOf (edge : Fin size × Fin size) : Repair size where
  child := edge.1
  removedParent := edge.2

variable {start : InheritanceGraph size} {walk inner last : Walk size}
  {path outer seen todo : List (Fin size)} {node parent : Fin size} {below : List (Frame size)}
  {state next : RepairLoop size}

/-- The state of the loop at some point of a walk. Off the path every member has its parents but for
the back edges. -/
structure During (start : InheritanceGraph size) (walk : Walk size) (path : List (Fin size))
    (state : RepairLoop size) : Prop where
  members : state.graph.members = start.members
  visits : ∀ member, state.visits.get member =
    if member ∈ walk.finished then .done else if member ∈ path then .onStack else .unvisited
  parents : ∀ child ∉ path, state.graph.parentsOf child =
    (start.parentsOf child).filter fun parent => (child, parent) ∉ walk.backEdges
  repairs : state.repairs = walk.backEdges.map repairOf

/-- The parents among some that lead off the stack. -/
def offStack (path seen : List (Fin size)) : List (Fin size) :=
  seen.filter fun parent => !path.contains parent

theorem offStack_append_of_mem (onPath : parent ∈ path) (seen : List (Fin size)) :
    offStack path (seen ++ [parent]) = offStack path seen := by
  rw [offStack, List.filter_append, List.filter_cons_of_neg (by simpa using onPath)]
  exact List.append_nil _

theorem offStack_append_of_not_mem (offPath : parent ∉ path) (seen : List (Fin size)) :
    offStack path (seen ++ [parent]) = offStack path seen ++ [parent] := by
  rw [offStack, List.filter_append, List.filter_cons_of_pos (by simpa using offPath)]
  rfl

/-- The state of the loop while some of the parents of the topmost member have been looked at: those
of them that lead off the stack are left, and all that have not been looked at. -/
structure Scanning (start : InheritanceGraph size) (walk : Walk size) (node : Fin size)
    (outer seen todo : List (Fin size)) (below : List (Frame size)) (state : RepairLoop size) :
    Prop extends During start walk (node :: outer) state where
  whole : start.parentsOf node = seen ++ todo
  /-- The back edges of the member are those to the stack that have been looked at. -/
  found : ∀ parent, (node, parent) ∈ walk.backEdges ↔ parent ∈ seen ∧ parent ∈ node :: outer
  here : state.graph.parentsOf node = offStack (node :: outer) seen ++ todo
  stack : state.stack = { node, position := (offStack (node :: outer) seen).length } :: below

/-- The next parent is the first one that has not been looked at. -/
theorem Scanning.next? (scanning : Scanning start walk node outer seen todo below state) :
    (state.graph.parentsOf node)[(offStack (node :: outer) seen).length]? = todo.head? := by
  rw [scanning.here, List.getElem?_append_right (Nat.le_refl _), Nat.sub_self,
    List.head?_eq_getElem?]

/-- An edge back to the stack is taken out, and the parent behind it moves up to its position. -/
theorem Scanning.back (scanning : Scanning start walk node outer seen (parent :: todo) below state)
    (sound : Walk.Sound start.parentsOf (node :: outer) walk) (onPath : parent ∈ node :: outer) :
    Scanning start (walk.addBackEdge (node, parent)) node outer (seen ++ [parent]) todo below
      state.step := by
  have unfinished : parent ∉ walk.finished := sound.apart parent onPath
  have isOnStack : state.visits.get parent = .onStack := by
    rw [scanning.visits, if_neg unfinished, if_pos onPath]
  have steps : state.step = state.remove
      { node, position := (offStack (node :: outer) seen).length } parent := by
    simp only [step, scanning.stack, scanning.next?, List.head?_cons, isOnStack]
  rw [steps]
  exact {
    members := scanning.members
    visits := scanning.visits
    parents := by
      intro child offPath
      have other : child ≠ node := fun same => offPath (same ▸ List.mem_cons_self)
      rw [remove, InheritanceGraph.parentsOf_setParents, if_neg other,
        scanning.parents child offPath]
      simp [other]
    repairs := by simp [remove, scanning.repairs, repairOf]
    whole := by simp [scanning.whole]
    found := by
      intro target
      by_cases same : target = parent
      · subst same
        simp [onPath]
      · simp [scanning.found, same]
    here := by
      rw [remove, InheritanceGraph.parentsOf_setParents, if_pos rfl, scanning.here,
        offStack_append_of_mem onPath, List.eraseIdx_append_of_length_le (Nat.le_refl _),
        Nat.sub_self, List.eraseIdx_cons_zero]
    stack := by rw [offStack_append_of_mem onPath]; exact scanning.stack }

/-- The state with a parent passed over, whether it was done before or has just been done. -/
theorem Scanning.pass (scanning : Scanning start walk node outer seen (parent :: todo) below state)
    (offPath : parent ∉ node :: outer) (during : During start inner (node :: outer) next)
    (same : ∀ target, (node, target) ∈ inner.backEdges ↔ (node, target) ∈ walk.backEdges)
    (unchanged : next.graph.parentsOf node = state.graph.parentsOf node)
    (stack : next.stack =
      { node, position := (offStack (node :: outer) seen).length + 1 } :: below) :
    Scanning start inner node outer (seen ++ [parent]) todo below next where
  toDuring := during
  whole := by simp [scanning.whole]
  found := by
    intro target
    rw [same, scanning.found]
    by_cases isParent : target = parent
    · subst isParent
      simp [offPath]
    · simp [isParent]
  here := by
    rw [unchanged, scanning.here, offStack_append_of_not_mem offPath]
    simp
  stack := by rw [stack, offStack_append_of_not_mem offPath, List.length_append]; rfl

/-- A parent that is done is passed over. -/
theorem Scanning.skip (scanning : Scanning start walk node outer seen (parent :: todo) below state)
    (offPath : parent ∉ node :: outer) (done : parent ∈ walk.finished) :
    Scanning start walk node outer (seen ++ [parent]) todo below state.step := by
  have isDone : state.visits.get parent = .done := by
    rw [scanning.visits, if_pos done]
  have steps : state.step = { state with
      stack := { node, position := (offStack (node :: outer) seen).length + 1 } :: below } := by
    simp only [step, scanning.stack, scanning.next?, List.head?_cons, isDone]
  rw [steps]
  exact scanning.pass offPath
    ⟨scanning.members, scanning.visits, scanning.parents, scanning.repairs⟩ (fun _ => Iff.rfl)
    rfl rfl

/-- A parent that has not been visited comes to stand on top of the stack, with all its parents. -/
theorem During.push (during : During start walk path state)
    (sound : Walk.Sound start.parentsOf path walk) (offPath : parent ∉ path)
    (fresh : parent ∉ walk.finished) :
    Scanning start walk parent path [] (start.parentsOf parent) state.stack
      (state.push parent) := by
  have noBackEdge : ∀ target, (parent, target) ∉ walk.backEdges := fun target listed =>
    (sound.origin _ listed).elim fresh offPath
  exact {
    members := during.members
    visits := by
      intro member
      refine (visits_mark state parent member .onStack).trans ?_
      by_cases same : member = parent
      · simp [same, fresh]
      · simp [same, during.visits]
    parents := fun child childOffPath =>
      during.parents child fun onPath => childOffPath (List.mem_cons_of_mem _ onPath)
    repairs := during.repairs
    whole := rfl
    found := by simp [noBackEdge]
    here := by
      refine (during.parents parent offPath).trans ?_
      simp [offStack, noBackEdge]
    stack := rfl }

/-- A parent that has not been visited is gone on to, and no edge is taken out. -/
theorem Scanning.enter (scanning : Scanning start walk node outer seen (parent :: todo) below state)
    (sound : Walk.Sound start.parentsOf (node :: outer) walk) (offPath : parent ∉ node :: outer)
    (fresh : parent ∉ walk.finished) :
    Scanning start walk parent (node :: outer) [] (start.parentsOf parent)
        ({ node, position := (offStack (node :: outer) seen).length + 1 } :: below) state.step ∧
      state.step.graph = state.graph := by
  have isUnvisited : state.visits.get parent = .unvisited := by
    rw [scanning.visits, if_neg fresh, if_neg offPath]
  let advanced : RepairLoop size := { state with
    stack := { node, position := (offStack (node :: outer) seen).length + 1 } :: below }
  have during : During start walk (node :: outer) advanced :=
    ⟨scanning.members, scanning.visits, scanning.parents, scanning.repairs⟩
  have steps : state.step = advanced.push parent := by
    simp only [step, scanning.stack, scanning.next?, List.head?_cons, isUnvisited, advanced]
  rw [steps]
  exact ⟨during.push sound offPath fresh, rfl⟩

/-- A member without a further parent is done. -/
theorem Scanning.finish (scanning : Scanning start walk node outer seen [] below state)
    (offPath : node ∉ outer) :
    During start (walk.finish node) outer state.step ∧ state.step.stack = below := by
  have steps : state.step = { state.mark node .done with stack := below } := by
    simp only [step, scanning.stack, scanning.next?, List.head?_nil]
  have kept : offStack (node :: outer) seen =
      (start.parentsOf node).filter fun parent => (node, parent) ∉ walk.backEdges := by
    rw [scanning.whole, List.append_nil]
    refine List.filter_congr fun parent listed => ?_
    simp [scanning.found, listed]
  rw [steps]
  refine ⟨{
    members := scanning.members
    visits := by
      intro member
      refine (visits_mark state node member .done).trans ?_
      by_cases same : member = node
      · simp [same]
      · simp [same, scanning.visits]
    parents := by
      intro child childOffPath
      by_cases same : child = node
      · subst same
        exact scanning.here.trans ((List.append_nil _).trans kept)
      · exact scanning.parents child (by simp [same, childOffPath])
    repairs := scanning.repairs }, rfl⟩

/-- A round of the loop leaves the parents of the members below the topmost one alone. -/
theorem Scanning.unchanged (scanning : Scanning start walk node outer seen todo below state)
    (offPath : node ∉ outer) {child : Fin size} (onPath : child ∈ outer) :
    state.step.graph.parentsOf child = state.graph.parentsOf child := by
  have other : child ≠ node := fun same => offPath (same ▸ onPath)
  simp only [step, scanning.stack]
  split
  · rfl
  · split
    · rw [remove, InheritanceGraph.parentsOf_setParents, if_neg other]
    · rfl
    · rfl

/-- The loop comes to the pop of its topmost member, at the end of a walk. The rest of the stack and
the parents of the members on it are left alone. -/
def Pops (start : InheritanceGraph size) (last : Walk size) (outer : List (Fin size))
    (below : List (Frame size)) (state : RepairLoop size) : Prop :=
  ∃ next, run state = run next ∧ During start last outer next ∧ next.stack = below ∧
    ∀ child ∈ outer, next.graph.parentsOf child = state.graph.parentsOf child

/-- What comes to the pop after one more round comes to it. -/
theorem Scanning.pops (scanning : Scanning start walk node outer seen todo below state)
    (offPath : node ∉ outer) (later : Pops start last outer below state.step) :
    Pops start last outer below state := by
  obtain ⟨next, runs, during, stack, unchanged⟩ := later
  have busy : state.stack ≠ [] := by simp [scanning.stack]
  exact ⟨next, (run_of_busy busy).trans runs, during, stack, fun child listed =>
    (unchanged child listed).trans (scanning.unchanged offPath listed)⟩

/-- From the push of a member to its pop the loop does what a scan of its parents does. -/
theorem pops_of_scans (scans : Walk.Scans start.parentsOf path walk todo last)
    (distinct : path.Nodup) (sound : Walk.Sound start.parentsOf path walk)
    (isPath : path = node :: outer)
    (scanning : Scanning start walk node outer seen todo below state) :
    Pops start (last.finish node) outer below state := by
  -- The stack below the member is arbitrary: it is not looked at before the member is popped.
  induction scans generalizing node outer seen below state with
  | nil =>
      subst isPath
      obtain ⟨offPath, _⟩ := List.nodup_cons.mp distinct
      obtain ⟨during, stack⟩ := scanning.finish offPath
      exact scanning.pops offPath ⟨state.step, rfl, during, stack, fun _ _ => rfl⟩
  | back onPath _ inductionHypothesis =>
      obtain ⟨rfl, rfl⟩ := List.cons.inj isPath
      obtain ⟨offPath, _⟩ := List.nodup_cons.mp distinct
      exact scanning.pops offPath
        (inductionHypothesis distinct (sound.addBackEdge _) rfl (scanning.back sound onPath))
  | skip parentOffPath done _ inductionHypothesis =>
      subst isPath
      obtain ⟨offPath, _⟩ := List.nodup_cons.mp distinct
      exact scanning.pops offPath
        (inductionHypothesis distinct sound rfl (scanning.skip parentOffPath done))
  | @enter _ walk parent rest inner last parentOffPath fresh scansBelow _ belowHypothesis
      laterHypothesis =>
      subst isPath
      obtain ⟨offPath, _⟩ := List.nodup_cons.mp distinct
      have extended : (parent :: node :: outer).Nodup :=
        List.nodup_cons.mpr ⟨parentOffPath, distinct⟩
      -- The parent is run to its own pop first, with the frame of the member underneath.
      obtain ⟨scanningBelow, sameGraph⟩ := scanning.enter sound parentOffPath fresh
      obtain ⟨popped, runsBelow, duringBelow, stackBelow, unchangedBelow⟩ :=
        belowHypothesis extended (sound.enter fresh) rfl scanningBelow
      have sameBackEdges : ∀ target,
          (node, target) ∈ (inner.finish parent).backEdges ↔ (node, target) ∈ walk.backEdges := by
        intro target
        have other : parent ≠ node := fun same => parentOffPath (same ▸ List.mem_cons_self)
        rw [Walk.backEdges_finish,
          scansBelow.backEdges_onPath extended (List.mem_cons_of_mem _ List.mem_cons_self)]
        simp [other]
      have sameParents : popped.graph.parentsOf node = state.graph.parentsOf node := by
        rw [unchangedBelow node List.mem_cons_self, sameGraph]
      have passed := scanning.pass parentOffPath duringBelow sameBackEdges sameParents stackBelow
      obtain ⟨next, runs, during, stack, unchanged⟩ := laterHypothesis distinct
        (sound.visit distinct parentOffPath fresh scansBelow) rfl passed
      exact scanning.pops offPath ⟨next, runsBelow.trans runs, during, stack, fun child listed =>
        (unchanged child listed).trans (unchangedBelow child (List.mem_cons_of_mem _ listed))⟩

/-- With an empty stack the loop goes over roots as a scan does. -/
theorem foldl_runFrom_of_scans (scans : Walk.Scans start.parentsOf path walk todo last)
    (isPath : path = []) (sound : Walk.Sound start.parentsOf path walk)
    (during : During start walk path state) (idle : state.stack = []) :
    During start last path (todo.foldl runFrom state) := by
  induction scans generalizing state with
  | nil => exact during
  | back => contradiction
  | skip _ done _ inductionHypothesis =>
      subst isPath
      have visited : state.visits.get _ = .done := (during.visits _).trans (if_pos done)
      rw [List.foldl_cons, runFrom, visited, if_neg (by decide)]
      exact inductionHypothesis rfl sound during idle
  | @enter path walk root rest inner last offPath fresh scansBelow _ _ laterHypothesis =>
      subst isPath
      have unvisited : state.visits.get root = .unvisited := by
        rw [during.visits, if_neg fresh, if_neg offPath]
      obtain ⟨next, runs, duringNext, stack, _⟩ := pops_of_scans scansBelow
        (List.nodup_singleton root) (sound.enter fresh) rfl (during.push sound offPath fresh)
      have nextIdle : next.stack = [] := stack.trans idle
      rw [List.foldl_cons, runFrom, if_pos unvisited, runs, run_of_idle nextIdle]
      exact laterHypothesis rfl (sound.visit List.nodup_nil offPath fresh scansBelow) duringNext
        nextIdle

end RepairLoop

namespace InheritanceGraph

/-- The loop removes what the walk of the graph finds. -/
theorem during_all (graph : InheritanceGraph size) :
    RepairLoop.During graph (Walk.all graph.parentsOf) []
      ((List.finRange size).foldl RepairLoop.runFrom { graph }) := by
  refine RepairLoop.foldl_runFrom_of_scans Walk.scans_all rfl .initial ?_ rfl
  exact {
    members := rfl
    visits := fun member => Vector.getElem_replicate member.isLt
    parents := by simp
    repairs := rfl }

/-- Children of removed edges are served one after the other. -/
theorem foldl_reattach (graph : InheritanceGraph size) (edges : List (Fin size × Fin size))
    (repairs : List (Repair size)) :
    (edges.map RepairLoop.repairOf).foldl RepairLoop.reattach (repairs, graph) =
      (repairs ++ (graph.reattach edges).1, (graph.reattach edges).2) := by
  induction edges generalizing graph repairs with
  | nil => simp [reattach]
  | cons edge later inductionHypothesis =>
      obtain ⟨child, removedParent⟩ := edge
      simp only [List.map_cons, List.foldl_cons, reattach, RepairLoop.reattach, RepairLoop.repairOf]
      cases if graph.needsDefault child then graph.attachDefault? child else none <;>
        simp [inductionHypothesis]

/-- To edit the graph while it is walked leaves the same parents and the same repairs as to walk it
first. -/
theorem breakCyclesInPlace_eq (graph : InheritanceGraph size) :
    graph.breakCyclesInPlace = graph.breakCycles := by
  obtain ⟨members, _, parents, repairs⟩ := graph.during_all
  have walked : ((List.finRange size).foldl RepairLoop.runFrom { graph }).graph =
      graph.removeEdges graph.backEdges := by
    refine ext_parentsOf members fun child => ?_
    rw [parents child List.not_mem_nil, parentsOf_removeEdges]
    exact List.filter_congr fun parent _ => by simp [backEdges]
  simp only [breakCyclesInPlace, repairs, walked, foldl_reattach]
  rfl

end InheritanceGraph

end SchemaMarkup
