import SchemaMarkup.Proofs.Inheritance.Ancestry

/-!
# A search with a stack

`InheritanceGraph.reaches` looks through all that a depth-first walk finishes. A loop gets by with
less: it keeps a stack of members to look at, stops at the goal, and puts the parents of a member on
the stack unless it has done so before (`Search.step`). A member can stand on the stack several
times, so the stack grows and shrinks; what goes down is the number of members that are still to be
expanded, and the stack only where that stays (`Search.measure`).

The loop is right because of what it leaves behind. `Search.Missed` says that no member that has
been expanded is the goal, and that the parents of each are expanded or on the stack: whatever leads
from there to the goal comes past the stack. So a round neither finds nor loses a way to the goal
(`Search.leads_step_iff`), and the loop finds the goal exactly if there is one
(`Search.finds_iff`), with or without cycles.
-/

open Relation (ReflTransGen)

namespace SchemaMarkup

variable {size : Nat} {graph : InheritanceGraph size}

/-! ## The loop -/

/-- The state of a search. -/
structure Search (size : Nat) where
  /-- The members whose parents have been put on the stack. -/
  expanded : Finset (Fin size) := ∅
  /-- The members to look at, the next one first. -/
  stack : List (Fin size)
deriving DecidableEq

namespace Search

variable {search : Search size} {goal member top : Fin size} {below : List (Fin size)}

/-- One round of the loop: takes the topmost member off the stack, and if it is new puts its parents
there, the last of them on top. -/
def step (graph : InheritanceGraph size) (search : Search size) : Search size :=
  match search.stack with
  | [] => search
  | top :: below =>
      if top ∈ search.expanded then
        { search with stack := below }
      else
        { expanded := insert top search.expanded, stack := (graph.parentsOf top).reverse ++ below }

theorem step_of_expanded (isStack : search.stack = top :: below) (again : top ∈ search.expanded) :
    search.step graph = { search with stack := below } := by
  simp only [step, isStack, if_pos again]

theorem step_of_fresh (isStack : search.stack = top :: below) (fresh : top ∉ search.expanded) :
    search.step graph =
      { expanded := insert top search.expanded
        stack := (graph.parentsOf top).reverse ++ below } := by
  simp only [step, isStack, if_neg fresh]

/-- What bounds the rounds that are left: the members that may still be expanded, and then the
stack. -/
def measure (search : Search size) : Nat × Nat :=
  (search.expandedᶜ.card, search.stack.length)

/-- Every round of the loop gets closer to its end. -/
theorem measure_step_lt (isStack : search.stack = top :: below) :
    Prod.Lex (· < ·) (· < ·) (search.step graph).measure search.measure := by
  by_cases again : top ∈ search.expanded
  · rw [step_of_expanded isStack again]
    refine Prod.Lex.right _ ?_
    rw [isStack, List.length_cons]
    exact Nat.lt_succ_self _
  · rw [step_of_fresh isStack again]
    refine Prod.Lex.left _ _ (Finset.card_lt_card ?_)
    exact Finset.compl_ssubset_compl.mpr (Finset.ssubset_insert again)

/-- Whether the loop comes upon the goal before the stack is empty. -/
def finds (graph : InheritanceGraph size) (goal : Fin size) (search : Search size) : Bool :=
  match _ : search.stack with
  | [] => false
  | top :: _ => top == goal || finds graph goal (search.step graph)
termination_by search.measure
decreasing_by exact measure_step_lt ‹_›

end Search

/-- The answer of the loop that starts with one member on the stack. -/
def InheritanceGraph.stackReaches (graph : InheritanceGraph size) (member ancestor : Fin size) :
    Bool :=
  Search.finds graph ancestor { stack := [member] }

namespace Search

variable {search : Search size} {goal member top : Fin size} {below : List (Fin size)}

theorem finds_of_nil (isStack : search.stack = []) : search.finds graph goal = false := by
  rw [finds]
  split
  · rfl
  · next isOther => simp [isStack] at isOther

theorem finds_of_cons (isStack : search.stack = top :: below) :
    search.finds graph goal = (top == goal || (search.step graph).finds graph goal) := by
  rw [finds]
  split
  · next isOther => simp [isStack] at isOther
  · next isOther =>
      obtain ⟨rfl, -⟩ := List.cons.inj (isStack.symm.trans isOther)
      rfl

/-! ## What a round keeps -/

/-- After a round the topmost member is expanded, whether it was so before or not. -/
theorem mem_expanded_step (isStack : search.stack = top :: below) :
    member ∈ (search.step graph).expanded ↔ member = top ∨ member ∈ search.expanded := by
  by_cases again : top ∈ search.expanded
  · rw [step_of_expanded isStack again, or_iff_right_of_imp]
    rintro rfl
    exact again
  · rw [step_of_fresh isStack again, Finset.mem_insert]

/-- After a round the stack is what was below the topmost member, and its parents if it is new. -/
theorem mem_stack_step (isStack : search.stack = top :: below) :
    member ∈ (search.step graph).stack ↔
      member ∈ below ∨ top ∉ search.expanded ∧ graph.Edge top member := by
  by_cases again : top ∈ search.expanded
  · rw [step_of_expanded isStack again]
    simp [again]
  · rw [step_of_fresh isStack again, List.mem_append, List.mem_reverse, or_comm]
    simp [again, InheritanceGraph.Edge]

/-- The goal has been missed so far, but no parent of an expanded member has been forgotten. -/
structure Missed (graph : InheritanceGraph size) (goal : Fin size) (search : Search size) :
    Prop where
  unmet : goal ∉ search.expanded
  pending : ∀ child ∈ search.expanded, ∀ parent, graph.Edge child parent →
    parent ∈ search.expanded ∨ parent ∈ search.stack

/-- A member on the stack is the goal or one of its descendants. -/
def Leads (graph : InheritanceGraph size) (goal : Fin size) (search : Search size) : Prop :=
  ∃ member ∈ search.stack, ReflTransGen graph.Edge member goal

/-- Nothing has been forgotten before the first round. -/
theorem missed_of_unexpanded (stack : List (Fin size)) : Missed graph goal { stack } where
  unmet := Finset.notMem_empty goal
  pending := by simp

/-- A round that does not look at the goal keeps the invariant. -/
theorem Missed.step (missed : search.Missed graph goal) (isStack : search.stack = top :: below)
    (other : top ≠ goal) : (search.step graph).Missed graph goal := by
  refine ⟨fun met => ?_, fun child expanded parent edge => ?_⟩
  · rcases (mem_expanded_step isStack).mp met with isTop | before
    · exact other isTop.symm
    · exact missed.unmet before
  · rw [mem_expanded_step isStack, mem_stack_step isStack]
    by_cases before : child ∈ search.expanded
    · rcases missed.pending child before parent edge with done | waiting
      · exact .inl (.inr done)
      · rw [isStack, List.mem_cons] at waiting
        rcases waiting with isTop | later
        · exact .inl (.inl isTop)
        · exact .inr (.inl later)
    · obtain rfl := ((mem_expanded_step isStack).mp expanded).resolve_right before
      exact .inr (.inr ⟨before, edge⟩)

/-- Whatever leads from an expanded member to the goal comes past the stack. -/
theorem Missed.leads_of_expanded (missed : search.Missed graph goal)
    (expanded : member ∈ search.expanded) (path : ReflTransGen graph.Edge member goal) :
    search.Leads graph goal := by
  induction path using ReflTransGen.head_induction_on with
  | refl => exact absurd expanded missed.unmet
  | @head child parent edge later inductionHypothesis =>
      rcases missed.pending child expanded parent edge with done | waiting
      · exact inductionHypothesis done
      · exact ⟨parent, waiting, later⟩

/-- A round that does not look at the goal neither finds nor loses a way to it. -/
theorem leads_step_iff (missed : search.Missed graph goal) (isStack : search.stack = top :: below)
    (other : top ≠ goal) : (search.step graph).Leads graph goal ↔ search.Leads graph goal := by
  constructor
  · rintro ⟨member, listed, path⟩
    rcases (mem_stack_step isStack).mp listed with later | ⟨-, edge⟩
    · exact ⟨member, isStack ▸ List.mem_cons_of_mem _ later, path⟩
    · exact ⟨top, isStack ▸ List.mem_cons_self, .head edge path⟩
  · rintro ⟨member, listed, path⟩
    rw [isStack, List.mem_cons] at listed
    rcases listed with isTop | later
    · -- It has gone from the stack, so the way to the goal is taken up where it comes past there.
      have kept : (search.step graph).Missed graph goal := missed.step isStack other
      exact kept.leads_of_expanded ((mem_expanded_step isStack).mpr (.inl isTop)) path
    · exact ⟨member, (mem_stack_step isStack).mpr (.inl later), path⟩

/-! ## What a run finds -/

/-- The loop finds the goal exactly if something on the stack leads there. -/
theorem finds_iff (missed : search.Missed graph goal) :
    search.finds graph goal = true ↔ search.Leads graph goal := by
  induction search using finds.induct graph with
  | case1 search isStack =>
      rw [finds_of_nil isStack, Leads, isStack]
      simp
  | case2 search top below isStack inductionHypothesis =>
      rw [finds_of_cons isStack, Bool.or_eq_true, beq_iff_eq]
      by_cases found : top = goal
      · refine iff_of_true (.inl found) ⟨top, isStack ▸ List.mem_cons_self, ?_⟩
        exact found ▸ .refl
      · rw [or_iff_right found, inductionHypothesis (missed.step isStack found),
          leads_step_iff missed isStack found]

end Search

namespace InheritanceGraph

/-- The loop finds exactly the members that are reached over edges. -/
theorem stackReaches_iff {member ancestor : Fin size} :
    graph.stackReaches member ancestor = true ↔ ReflTransGen graph.Edge member ancestor := by
  rw [stackReaches, Search.finds_iff (Search.missed_of_unexpanded _), Search.Leads]
  simp

/-- Whether one member leads to another over parents, in no step or in any number of them, is what
the search decides in every graph, and the loop with a stack gives the same answer. -/
theorem reaches_decidesAncestry (graph : InheritanceGraph size) (member ancestor : Fin size) :
    (graph.reaches member ancestor = true ↔ ReflTransGen graph.Edge member ancestor) ∧
      graph.stackReaches member ancestor = graph.reaches member ancestor :=
  ⟨reaches_iff, Bool.eq_iff_iff.mpr (stackReaches_iff.trans reaches_iff.symm)⟩

end InheritanceGraph

end SchemaMarkup
