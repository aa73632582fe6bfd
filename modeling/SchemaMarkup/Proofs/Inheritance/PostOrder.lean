import SchemaMarkup.Proofs.FirstOccurrence

/-!
# Ancestors in post-order

`PostOrder` is the depth-first walk as one would write it down: a node is finished right
after the nodes that its parents lead to, and never twice. It is a relation, so it takes
neither fuel nor marks, and it has one outcome at most. Where the parents rank lower than
their children it has an outcome; `PostOrder.names` then says that lists put together
from the lists of the parents, level by level, hold what one walk over all ancestors
collects.
-/

namespace SchemaMarkup

variable {Node Other Name : Type}

/-- Nodes are walked in turn, when some were seen before. The last list holds those that
are finished on the way, each after all that its parents lead to. -/
inductive PostOrder (parents : Node → List Node) :
    List Node → List Node → List Node → Prop where
  | nil {seen} : PostOrder parents seen [] []
  | skip {seen node rest finished}
      (known : node ∈ seen)
      (later : PostOrder parents seen rest finished) :
      PostOrder parents seen (node :: rest) finished
  | enter {seen node rest above finished}
      (fresh : node ∉ seen)
      (below : PostOrder parents seen (parents node) above)
      (later : PostOrder parents (seen ++ above ++ [node]) rest finished) :
      PostOrder parents seen (node :: rest) (above ++ [node] ++ finished)

namespace PostOrder

variable {parents : Node → List Node} {seen todo finished : List Node}

/-- A walk has one outcome. -/
theorem unique {others : List Node} (walk : PostOrder parents seen todo finished)
    (other : PostOrder parents seen todo others) : finished = others := by
  induction walk generalizing others with
  | nil =>
      cases other
      rfl
  | skip known _ inductionHypothesis =>
      cases other with
      | skip _ later => exact inductionHypothesis later
      | enter fresh _ _ => exact absurd known fresh
  | enter fresh _ _ belowHypothesis laterHypothesis =>
      cases other with
      | skip known _ => exact absurd known fresh
      | enter _ below later =>
          obtain rfl := belowHypothesis below
          rw [laterHypothesis later]

/-- A walk comes to an end where every parent ranks lower than its child. -/
theorem exists_of_rank (rank : Node → Nat)
    (descends : ∀ child, ∀ parent ∈ parents child, rank parent < rank child)
    (seen todo : List Node) : ∃ finished, PostOrder parents seen todo finished := by
  have bounded : ∀ bound, ∀ todo, (∀ node ∈ todo, rank node < bound) →
      ∀ seen, ∃ finished, PostOrder parents seen todo finished := by
    intro bound
    induction bound with
    | zero =>
        intro todo low seen
        cases todo with
        | nil => exact ⟨[], .nil⟩
        | cons node rest => exact absurd (low node List.mem_cons_self) (Nat.not_lt_zero _)
    | succ bound boundHypothesis =>
        intro todo low
        induction todo with
        | nil => exact fun _ => ⟨[], .nil⟩
        | cons node rest restHypothesis =>
            obtain ⟨lowNode, lowRest⟩ := List.forall_mem_cons.mp low
            intro seen
            by_cases known : node ∈ seen
            · obtain ⟨finished, later⟩ := restHypothesis lowRest seen
              exact ⟨finished, .skip known later⟩
            · have lowParents : ∀ parent ∈ parents node, rank parent < bound := by
                intro parent declared
                have lower := descends node parent declared
                omega
              obtain ⟨above, below⟩ := boundHypothesis (parents node) lowParents seen
              obtain ⟨finished, later⟩ := restHypothesis lowRest (seen ++ above ++ [node])
              exact ⟨_, .enter known below later⟩
  have highest : ∃ bound, ∀ node ∈ todo, rank node < bound := by
    induction todo with
    | nil => exact ⟨0, by simp⟩
    | cons node rest inductionHypothesis =>
        obtain ⟨bound, low⟩ := inductionHypothesis
        refine ⟨max (rank node + 1) bound, List.forall_mem_cons.mpr ⟨by omega, ?_⟩⟩
        intro other listed
        have lower := low other listed
        omega
  obtain ⟨bound, low⟩ := highest
  exact bounded bound todo low seen

/-- Renaming the nodes renames the walk. -/
theorem map {others : Other → List Other} {rename : Node → Other}
    (injective : Function.Injective rename)
    (alike : ∀ node, others (rename node) = (parents node).map rename)
    (walk : PostOrder parents seen todo finished) :
    PostOrder others (seen.map rename) (todo.map rename) (finished.map rename) := by
  induction walk with
  | nil => exact .nil
  | skip known _ inductionHypothesis =>
      exact .skip (List.mem_map_of_mem known) inductionHypothesis
  | enter fresh _ _ belowHypothesis laterHypothesis =>
      rw [← alike] at belowHypothesis
      simp only [List.map_append, List.map_cons, List.map_nil] at laterHypothesis ⊢
      refine .enter ?_ belowHypothesis laterHypothesis
      rintro known
      obtain ⟨_, listed, same⟩ := List.mem_map.mp known
      exact fresh (injective same ▸ listed)

/-- If the list of every node is put together from the lists of its parents and from what
the node has of its own, then a walk collects the lists of the nodes that it is given. -/
theorem names [DecidableEq Name] {own full : Node → List Name}
    (composed : ∀ node, full node = ((parents node).flatMap full ++ own node).eraseDups)
    (walk : PostOrder parents seen todo finished)
    (collected : ∀ node ∈ seen, full node ⊆ seen.flatMap own) :
    (seen.flatMap own ++ todo.flatMap full).eraseDups =
        ((seen ++ finished).flatMap own).eraseDups ∧
      ∀ node ∈ seen ++ finished, full node ⊆ (seen ++ finished).flatMap own := by
  induction walk with
  | nil => exact ⟨by simp, by simpa using collected⟩
  | @skip seen node rest finished known _ inductionHypothesis =>
      obtain ⟨same, covered⟩ := inductionHypothesis collected
      refine ⟨?_, covered⟩
      rw [← same, List.flatMap_cons, ← List.append_assoc]
      exact eraseDups_append_congr_left (eraseDups_append_of_subset (collected node known)) _
  | @enter seen node rest above finished _ _ _ belowHypothesis laterHypothesis =>
      obtain ⟨sameAbove, coveredAbove⟩ := belowHypothesis collected
      -- The list of the node adds its own names to those that the walk has by then.
      have sameNode : (seen.flatMap own ++ full node).eraseDups =
          ((seen ++ above ++ [node]).flatMap own).eraseDups := by
        have flattened : (seen ++ above ++ [node]).flatMap own =
            (seen ++ above).flatMap own ++ own node := by simp
        rw [flattened, ← eraseDups_append_congr_left sameAbove, List.append_assoc, composed,
          eraseDups_append_congr_right _ (eraseDups_eraseDups _)]
      have coveredNode : ∀ other ∈ seen ++ above ++ [node],
          full other ⊆ (seen ++ above ++ [node]).flatMap own := by
        intro other listed name held
        rcases List.mem_append.mp listed with before | last
        · rw [List.flatMap_append]
          exact List.mem_append_left _ (coveredAbove other before held)
        · obtain rfl := List.mem_singleton.mp last
          rw [← List.mem_eraseDups, ← sameNode, List.mem_eraseDups]
          exact List.mem_append_right _ held
      obtain ⟨same, covered⟩ := laterHypothesis coveredNode
      rw [← List.append_assoc, ← List.append_assoc]
      refine ⟨?_, covered⟩
      rw [← same, List.flatMap_cons, ← List.append_assoc]
      exact eraseDups_append_congr_left sameNode _

end PostOrder

end SchemaMarkup
