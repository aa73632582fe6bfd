import Mathlib.Data.Fintype.Card
import Mathlib.Logic.Relation
import SchemaMarkup.Inheritance.Walk

/-!
# What a depth-first walk finds

`Walk.Scans`, rather than the recursion with its `room`, is what the properties of
walks are proved from: `Walk.scans_all` and `Walk.scans_startingAt` say that both
walks of the library are derivations of it. Every property is one induction over
the derivation.

`Walk.Sound` is the invariant. Its field `settled` is the heart of the matter: of
the edges of a finished node exactly those are back edges that lead to a node which
was not finished before it. So the order of finishing ranks the graph that is left
when the back edges are taken out.
-/

open Relation (ReflTransGen)

namespace SchemaMarkup.Walk

variable {size : Nat} {parents : Fin size → List (Fin size)}

@[simp] theorem finished_addBackEdge (walk : Walk size) (edge : Fin size × Fin size) :
    (walk.addBackEdge edge).finished = walk.finished := rfl

@[simp] theorem backEdges_addBackEdge (walk : Walk size) (edge : Fin size × Fin size) :
    (walk.addBackEdge edge).backEdges = walk.backEdges ++ [edge] := rfl

@[simp] theorem finished_finish (walk : Walk size) (node : Fin size) :
    (walk.finish node).finished = walk.finished ++ [node] := rfl

@[simp] theorem backEdges_finish (walk : Walk size) (node : Fin size) :
    (walk.finish node).backEdges = walk.backEdges := rfl

/-- Some nodes are walked in turn from the last node of a path, which comes first in
its list. The first walk is what was found before, the second what is found after. -/
inductive Scans (parents : Fin size → List (Fin size)) :
    List (Fin size) → Walk size → List (Fin size) → Walk size → Prop where
  | nil {path walk} : Scans parents path walk [] walk
  | back {child path walk parent rest last}
      (onPath : parent ∈ child :: path)
      (later : Scans parents (child :: path) (walk.addBackEdge (child, parent)) rest last) :
      Scans parents (child :: path) walk (parent :: rest) last
  | skip {path walk node rest last}
      (offPath : node ∉ path) (done : node ∈ walk.finished)
      (later : Scans parents path walk rest last) :
      Scans parents path walk (node :: rest) last
  | enter {path walk node rest inner last}
      (offPath : node ∉ path) (fresh : node ∉ walk.finished)
      (below : Scans parents (node :: path) walk (parents node) inner)
      (later : Scans parents path (inner.finish node) rest last) :
      Scans parents path walk (node :: rest) last

/-! ## The recursion derives the relation -/

/-- A visit with room for every node off the path is one step of a scan. -/
theorem scans_visit (room : Nat) {path rest : List (Fin size)} {walk last : Walk size}
    {node : Fin size} (distinct : path.Nodup) (offPath : node ∉ path)
    (enough : path.length + room = size)
    (later : Scans parents path (visit parents room path walk node) rest last) :
    Scans parents path walk (node :: rest) last := by
  induction room generalizing path walk node rest last with
  | zero =>
      have extended : (node :: path).Nodup := List.nodup_cons.mpr ⟨offPath, distinct⟩
      have bounded := extended.length_le_card
      simp only [List.length_cons, Fintype.card_fin] at bounded
      omega
  | succ room inductionHypothesis =>
      by_cases done : node ∈ walk.finished
      · have unchanged : visit parents (room + 1) path walk node = walk := by
          simp [visit, done]
        rw [unchanged] at later
        exact .skip offPath done later
      · have extended : (node :: path).Nodup := List.nodup_cons.mpr ⟨offPath, distinct⟩
        have scanned : ∀ (todo : List (Fin size)) (before : Walk size),
            Scans parents (node :: path) before todo
              (todo.foldl (fun walk parent =>
                if (node :: path).contains parent then walk.addBackEdge (node, parent)
                else visit parents room (node :: path) walk parent) before) := by
          intro todo
          induction todo with
          | nil => exact fun _ => .nil
          | cons parent todo scanRest =>
              intro before
              rw [List.foldl_cons]
              by_cases onPath : parent ∈ node :: path
              · rw [if_pos (List.contains_iff_mem.mpr onPath)]
                exact .back onPath (scanRest _)
              · rw [if_neg (by simpa using onPath)]
                refine inductionHypothesis extended onPath ?_ (scanRest _)
                rw [List.length_cons]
                omega
        have entered : visit parents (room + 1) path walk node =
            ((parents node).foldl (fun walk parent =>
              if (node :: path).contains parent then walk.addBackEdge (node, parent)
              else visit parents room (node :: path) walk parent) walk).finish node := by
          simp [visit, done]
        rw [entered] at later
        exact .enter offPath done (scanned _ _) later

/-- Visiting nodes in turn, each from an empty path, is a scan of them. -/
theorem scans_foldl_visit (todo : List (Fin size)) (walk : Walk size) :
    Scans parents [] walk todo (todo.foldl (visit parents size []) walk) := by
  induction todo generalizing walk with
  | nil => exact .nil
  | cons node todo inductionHypothesis =>
      exact scans_visit size List.nodup_nil List.not_mem_nil (Nat.zero_add size)
        (inductionHypothesis _)

/-- The walk from every node is a scan of all nodes. -/
theorem scans_all : Scans parents [] {} (List.finRange size) (all parents) :=
  scans_foldl_visit _ _

/-- The walk from one node is a scan of that node. -/
theorem scans_startingAt (node : Fin size) :
    Scans parents [] {} [node] (startingAt parents node) :=
  scans_foldl_visit [node] _

/-! ## What a scan keeps -/

/-- A scan only adds to the nodes that are finished. -/
theorem Scans.finished_subset {path todo : List (Fin size)} {walk last : Walk size}
    (scans : Scans parents path walk todo last) : walk.finished ⊆ last.finished := by
  induction scans with
  | nil => exact List.Subset.refl _
  | back _ _ inductionHypothesis => exact inductionHypothesis
  | skip _ _ _ inductionHypothesis => exact inductionHypothesis
  | enter _ _ _ _ below later =>
      intro node finished
      exact later (List.mem_append_left _ (below finished))

/-- Every scanned node is finished or on the path. -/
theorem Scans.covers {path todo : List (Fin size)} {walk last : Walk size}
    (scans : Scans parents path walk todo last) :
    ∀ node ∈ todo, node ∈ last.finished ∨ node ∈ path := by
  induction scans with
  | nil => simp
  | back onPath _ inductionHypothesis =>
      exact List.forall_mem_cons.mpr ⟨.inr onPath, inductionHypothesis⟩
  | skip _ done later inductionHypothesis =>
      exact List.forall_mem_cons.mpr ⟨.inl (later.finished_subset done), inductionHypothesis⟩
  | enter _ _ _ later _ inductionHypothesis =>
      refine List.forall_mem_cons.mpr ⟨.inl (later.finished_subset ?_), inductionHypothesis⟩
      simp

/-- While a node is on the path it gets back edges only when it is the last node of
the path, and then one for each scanned node that is on the path. -/
theorem Scans.backEdges_onPath {path todo : List (Fin size)} {walk last : Walk size}
    (scans : Scans parents path walk todo last) (distinct : path.Nodup) {child : Fin size}
    (onPath : child ∈ path) (parent : Fin size) :
    (child, parent) ∈ last.backEdges ↔ (child, parent) ∈ walk.backEdges ∨
      path.head? = some child ∧ parent ∈ todo ∧ parent ∈ path := by
  induction scans with
  | nil => simp
  | @back head path walk target rest last targetOnPath later inductionHypothesis =>
      rw [inductionHypothesis distinct onPath]
      simp only [backEdges_addBackEdge, List.mem_append, Prod.mk.injEq, List.head?_cons,
        Option.some.injEq, List.mem_cons]
      grind
  | @skip path walk node rest last offPath done later inductionHypothesis =>
      rw [inductionHypothesis distinct onPath]
      grind
  | @enter path walk node rest inner last offPath fresh below later
      belowHypothesis laterHypothesis =>
      have extended : (node :: path).Nodup := List.nodup_cons.mpr ⟨offPath, distinct⟩
      have different : node ≠ child := fun same => offPath (same ▸ onPath)
      rw [laterHypothesis distinct onPath, backEdges_finish,
        belowHypothesis extended (List.mem_cons_of_mem _ onPath)]
      simp only [List.head?_cons, Option.some.injEq, different, false_and, or_false]
      grind

/-! ## The invariant -/

/-- What holds of a walk whenever the nodes of a path are the ones in progress. -/
structure Sound (parents : Fin size → List (Fin size)) (path : List (Fin size))
    (walk : Walk size) : Prop where
  /-- No node is finished twice. -/
  distinct : walk.finished.Nodup
  /-- A node in progress is not finished. -/
  apart : ∀ node ∈ path, node ∉ walk.finished
  /-- Back edges start at nodes that the walk has entered. -/
  origin : ∀ edge ∈ walk.backEdges, edge.1 ∈ walk.finished ∨ edge.1 ∈ path
  /-- The parents of a finished node have been entered. -/
  closed : ∀ child ∈ walk.finished, ∀ parent ∈ parents child,
    parent ∈ walk.finished ∨ parent ∈ path
  /-- The edges of a finished node lead to nodes finished before it, back edges apart. -/
  settled : ∀ child ∈ walk.finished, ∀ parent, (child, parent) ∈ walk.backEdges ↔
    parent ∈ parents child ∧ ¬walk.finished.idxOf parent < walk.finished.idxOf child

theorem Sound.initial : Sound parents [] {} where
  distinct := List.nodup_nil
  apart := by simp
  origin := by simp
  closed := by simp
  settled := by simp

/-- A back edge of the node in hand concerns no finished node. -/
theorem Sound.addBackEdge {child : Fin size} {path : List (Fin size)} {walk : Walk size}
    (sound : Sound parents (child :: path) walk) (parent : Fin size) :
    Sound parents (child :: path) (walk.addBackEdge (child, parent)) where
  distinct := sound.distinct
  apart := sound.apart
  origin := by
    intro edge listed
    rcases List.mem_append.mp listed with before | added
    · exact sound.origin edge before
    · rw [List.mem_singleton.mp added]
      exact .inr List.mem_cons_self
  closed := sound.closed
  settled := by
    intro node finished target
    have different : node ≠ child := by
      rintro rfl
      exact sound.apart _ List.mem_cons_self finished
    simpa [different] using sound.settled node finished target

/-- A node that is entered was neither finished nor in progress. -/
theorem Sound.enter {node : Fin size} {path : List (Fin size)} {walk : Walk size}
    (sound : Sound parents path walk) (fresh : node ∉ walk.finished) :
    Sound parents (node :: path) walk where
  distinct := sound.distinct
  apart := List.forall_mem_cons.mpr ⟨fresh, sound.apart⟩
  origin := fun edge listed => (sound.origin edge listed).imp_right (List.mem_cons_of_mem _)
  closed := fun child finished parent declared =>
    (sound.closed child finished parent declared).imp_right (List.mem_cons_of_mem _)
  settled := sound.settled

/-- The last node of the path is finished once all its edges were looked at: those to
nodes that are still in progress are its back edges. -/
theorem Sound.finish {node : Fin size} {path : List (Fin size)} {walk : Walk size}
    (sound : Sound parents (node :: path) walk) (offPath : node ∉ path)
    (covered : ∀ parent ∈ parents node, parent ∈ walk.finished ∨ parent ∈ node :: path)
    (exact : ∀ parent, (node, parent) ∈ walk.backEdges ↔
      parent ∈ parents node ∧ parent ∉ walk.finished) :
    Sound parents path (walk.finish node) := by
  have fresh : node ∉ walk.finished := sound.apart node List.mem_cons_self
  have leaves : ∀ target, target ∈ walk.finished ∨ target ∈ node :: path →
      target ∈ (walk.finish node).finished ∨ target ∈ path := by
    intro target entered
    simp only [finished_finish, List.mem_append, List.mem_cons] at entered ⊢
    tauto
  refine ⟨?_, ?_, ?_, ?_, ?_⟩
  · rw [finished_finish, List.nodup_append]
    refine ⟨sound.distinct, List.nodup_singleton node, ?_⟩
    rintro _ finished _ isNode rfl
    exact fresh (List.mem_singleton.mp isNode ▸ finished)
  · intro target onPath
    have unfinished := sound.apart target (List.mem_cons_of_mem _ onPath)
    have different : target ≠ node := fun same => offPath (same ▸ onPath)
    simp [unfinished, different]
  · exact fun edge listed => leaves edge.1 (sound.origin edge listed)
  · intro child finished parent declared
    rcases List.mem_append.mp finished with before | isNode
    · exact leaves parent (sound.closed child before parent declared)
    · rw [List.mem_singleton.mp isNode] at declared
      exact leaves parent (covered parent declared)
  · intro child finished parent
    have place : ∀ target, target ∉ walk.finished →
        walk.finished.length ≤ (walk.finished ++ [node]).idxOf target := by
      intro target missing
      rw [List.idxOf_append, if_neg missing]
      omega
    rcases List.mem_append.mp finished with before | isNode
    · -- A node finished earlier keeps its place, and so do the nodes before it.
      rw [backEdges_finish, sound.settled child before parent, finished_finish]
      have childPlace := List.idxOf_lt_length_of_mem before
      rw [List.idxOf_append (a := child), if_pos before]
      by_cases parentDone : parent ∈ walk.finished
      · rw [List.idxOf_append, if_pos parentDone]
      · have parentPlace := place parent parentDone
        have absent := List.idxOf_eq_length parentDone
        have neither : ¬walk.finished.idxOf parent < walk.finished.idxOf child ∧
            ¬(walk.finished ++ [node]).idxOf parent < walk.finished.idxOf child := by omega
        simp [neither.1, neither.2]
    · rw [List.mem_singleton.mp isNode, backEdges_finish, exact parent, finished_finish]
      have nodePlace : (walk.finished ++ [node]).idxOf node = walk.finished.length := by
        simp [List.idxOf_append, fresh]
      rw [nodePlace]
      by_cases parentDone : parent ∈ walk.finished
      · have parentPlace := List.idxOf_lt_length_of_mem parentDone
        simp [List.idxOf_append, parentDone, parentPlace]
      · have parentPlace := place parent parentDone
        simp only [parentDone, not_false_eq_true, and_true, not_lt, parentPlace]

/-- A scan keeps the invariant. -/
theorem Scans.sound {path todo : List (Fin size)} {walk last : Walk size}
    (scans : Scans parents path walk todo last) (distinct : path.Nodup)
    (sound : Sound parents path walk) : Sound parents path last := by
  induction scans with
  | nil => exact sound
  | back _ _ inductionHypothesis => exact inductionHypothesis distinct (sound.addBackEdge _)
  | skip _ _ _ inductionHypothesis => exact inductionHypothesis distinct sound
  | @enter path walk node rest inner last offPath fresh below later
      belowHypothesis laterHypothesis =>
      have extended : (node :: path).Nodup := List.nodup_cons.mpr ⟨offPath, distinct⟩
      have innerSound := belowHypothesis extended (sound.enter fresh)
      refine laterHypothesis distinct (innerSound.finish offPath below.covers ?_)
      intro parent
      have unknown : (node, parent) ∉ walk.backEdges := by
        intro listed
        rcases sound.origin _ listed with finished | onPath
        · exact fresh finished
        · exact offPath onPath
      rw [below.backEdges_onPath extended List.mem_cons_self]
      simp only [unknown, false_or, List.head?_cons, true_and]
      refine and_congr_right fun declared => ⟨innerSound.apart parent, ?_⟩
      exact (below.covers parent declared).resolve_left

/-- Entering and finishing one node keeps the invariant. -/
theorem Sound.visit {path : List (Fin size)} {walk inner : Walk size} {node : Fin size}
    (sound : Sound parents path walk) (distinct : path.Nodup) (offPath : node ∉ path)
    (fresh : node ∉ walk.finished)
    (below : Scans parents (node :: path) walk (parents node) inner) :
    Sound parents path (inner.finish node) :=
  (Scans.enter offPath fresh below .nil).sound distinct sound

/-! ## Back edges -/

/-- A finished node gets no further back edges. -/
theorem Scans.backEdges_finished {path todo : List (Fin size)} {walk last : Walk size}
    (scans : Scans parents path walk todo last) (distinct : path.Nodup)
    (sound : Sound parents path walk) {edge : Fin size × Fin size}
    (finished : edge.1 ∈ walk.finished) (listed : edge ∈ last.backEdges) :
    edge ∈ walk.backEdges := by
  induction scans with
  | nil => exact listed
  | @back child path walk parent rest last _ _ inductionHypothesis =>
      have before := inductionHypothesis distinct (sound.addBackEdge parent) finished listed
      rcases List.mem_append.mp before with before | added
      · exact before
      · rw [List.mem_singleton.mp added] at finished
        exact absurd finished (sound.apart child List.mem_cons_self)
  | skip _ _ _ inductionHypothesis => exact inductionHypothesis distinct sound finished listed
  | @enter path walk node rest inner last offPath fresh below later
      belowHypothesis laterHypothesis =>
      have extended : (node :: path).Nodup := List.nodup_cons.mpr ⟨offPath, distinct⟩
      have kept := List.mem_append_left [node] (below.finished_subset finished)
      have inner := laterHypothesis distinct (sound.visit distinct offPath fresh below) kept listed
      exact belowHypothesis extended (sound.enter fresh) finished inner

/-- A scan of distinct nodes finds no back edge twice, if no node has a parent twice. -/
theorem Scans.nodup_backEdges {path todo : List (Fin size)} {walk last : Walk size}
    (scans : Scans parents path walk todo last) (simple : ∀ node, (parents node).Nodup)
    (distinct : path.Nodup) (sound : Sound parents path walk) (unlike : todo.Nodup)
    (unseen : ∀ child, path.head? = some child → ∀ parent ∈ todo,
      (child, parent) ∉ walk.backEdges)
    (before : walk.backEdges.Nodup) : last.backEdges.Nodup := by
  induction scans with
  | nil => exact before
  | @back child path walk parent rest last _ _ inductionHypothesis =>
      obtain ⟨absent, unlikeRest⟩ := List.nodup_cons.mp unlike
      refine inductionHypothesis distinct (sound.addBackEdge parent) unlikeRest ?_ ?_
      · rintro _ ⟨⟩ target later listed
        rcases List.mem_append.mp listed with old | added
        · exact unseen child rfl target (List.mem_cons_of_mem _ later) old
        · have same : target = parent := by simpa using added
          exact absent (same ▸ later)
      · refine List.nodup_append.mpr ⟨before, List.nodup_singleton _, ?_⟩
        rintro _ old _ added rfl
        rw [List.mem_singleton.mp added] at old
        exact unseen child rfl parent List.mem_cons_self old
  | skip _ _ _ inductionHypothesis =>
      exact inductionHypothesis distinct sound (List.nodup_cons.mp unlike).2
        (fun child isHead parent later =>
          unseen child isHead parent (List.mem_cons_of_mem _ later)) before
  | @enter path walk node rest inner last offPath fresh below later
      belowHypothesis laterHypothesis =>
      have extended : (node :: path).Nodup := List.nodup_cons.mpr ⟨offPath, distinct⟩
      refine laterHypothesis distinct (sound.visit distinct offPath fresh below)
        (List.nodup_cons.mp unlike).2 ?_ ?_
      · intro child isHead parent later listed
        have onPath : child ∈ path := List.mem_of_mem_head? isHead
        have different : node ≠ child := fun same => offPath (same ▸ onPath)
        rw [backEdges_finish, below.backEdges_onPath extended (List.mem_cons_of_mem _ onPath)]
          at listed
        simp only [List.head?_cons, Option.some.injEq, different, false_and, or_false] at listed
        exact unseen child isHead parent (List.mem_cons_of_mem _ later) listed
      · refine belowHypothesis extended (sound.enter fresh) (simple node) ?_ before
        rintro _ ⟨⟩ parent _ listed
        rcases sound.origin _ listed with finished | onPath
        · exact fresh finished
        · exact offPath onPath

/-- The target of a back edge leads to its source. `Kept` stands for edges that are no
back edges of the finished walk: by such edges every node of the path leads to the last
one, and the scan goes on. -/
theorem Scans.backEdge_closes {Kept : Fin size → Fin size → Prop}
    {path todo : List (Fin size)} {walk last : Walk size}
    (scans : Scans parents path walk todo last) (distinct : path.Nodup)
    (sound : Sound parents path walk)
    (linked : ∀ child, path.head? = some child → ∀ node ∈ path, ReflTransGen Kept node child)
    (onward : ∀ child, path.head? = some child → ∀ parent ∈ todo, parent ∉ path →
      Kept child parent)
    (kept : ∀ child ∈ last.finished, ∀ parent ∈ parents child,
      (child, parent) ∉ last.backEdges → Kept child parent)
    {edge : Fin size × Fin size} (found : edge ∈ last.backEdges)
    (new : edge ∉ walk.backEdges) : ReflTransGen Kept edge.2 edge.1 := by
  induction scans with
  | nil => exact absurd found new
  | @back child path walk parent rest last onPath later inductionHypothesis =>
      by_cases isEdge : edge = (child, parent)
      · rw [isEdge]
        exact linked child rfl parent onPath
      · refine inductionHypothesis distinct (sound.addBackEdge parent) linked ?_ kept found ?_
        · exact fun node isHead target scanned =>
            onward node isHead target (List.mem_cons_of_mem _ scanned)
        · simp [new, isEdge]
  | skip _ _ _ inductionHypothesis =>
      refine inductionHypothesis distinct sound linked ?_ kept found new
      exact fun child isHead parent scanned =>
        onward child isHead parent (List.mem_cons_of_mem _ scanned)
  | @enter path walk node rest inner last offPath fresh below later
      belowHypothesis laterHypothesis =>
      have extended : (node :: path).Nodup := List.nodup_cons.mpr ⟨offPath, distinct⟩
      have finishSound := sound.visit distinct offPath fresh below
      have stable : ∀ edge : Fin size × Fin size, edge.1 ∈ (inner.finish node).finished →
          edge ∈ last.backEdges → edge ∈ inner.backEdges :=
        fun _ finished listed => later.backEdges_finished distinct finishSound finished listed
      by_cases inside : edge ∈ inner.backEdges
      · refine belowHypothesis extended (sound.enter fresh) ?_ ?_ ?_ inside new
        · rintro _ ⟨⟩ other onPath
          rcases List.mem_cons.mp onPath with isNode | earlier
          · rw [isNode]
          · obtain ⟨head, isHead⟩ := Option.isSome_iff_exists.mp
              (List.isSome_head?.mpr (List.ne_nil_of_mem earlier))
            exact (linked head isHead other earlier).tail
              (onward head isHead node List.mem_cons_self offPath)
        · rintro _ ⟨⟩ parent declared parentOffPath
          refine kept node (later.finished_subset (by simp)) parent declared fun listed => ?_
          have inInner := stable (node, parent) (by simp) listed
          rw [below.backEdges_onPath extended List.mem_cons_self] at inInner
          rcases inInner with old | ⟨_, _, onPath⟩
          · rcases sound.origin _ old with finished | onPath
            · exact fresh finished
            · exact offPath onPath
          · exact parentOffPath onPath
        · intro child finished parent declared notInner
          have kept' := List.mem_append_left [node] finished
          exact kept child (later.finished_subset kept') parent declared
            fun listed => notInner (stable (child, parent) kept' listed)
      · refine laterHypothesis distinct finishSound linked ?_ kept found inside
        exact fun child isHead parent scanned =>
          onward child isHead parent (List.mem_cons_of_mem _ scanned)

/-- What a scan finishes is reached from what it scans. -/
theorem Scans.reached {path todo : List (Fin size)} {walk last : Walk size}
    (scans : Scans parents path walk todo last) {node : Fin size}
    (finished : node ∈ last.finished) :
    node ∈ walk.finished ∨
      ∃ start ∈ todo, ReflTransGen (fun child parent => parent ∈ parents child) start node := by
  induction scans with
  | nil => exact .inl finished
  | back _ _ inductionHypothesis =>
      rcases inductionHypothesis finished with before | ⟨start, scanned, path⟩
      · exact .inl before
      · exact .inr ⟨start, List.mem_cons_of_mem _ scanned, path⟩
  | skip _ _ _ inductionHypothesis =>
      rcases inductionHypothesis finished with before | ⟨start, scanned, path⟩
      · exact .inl before
      · exact .inr ⟨start, List.mem_cons_of_mem _ scanned, path⟩
  | @enter path walk entered rest inner last _ _ _ _ belowHypothesis laterHypothesis =>
      rcases laterHypothesis finished with before | ⟨start, scanned, path⟩
      · rcases List.mem_append.mp before with inside | isEntered
        · rcases belowHypothesis inside with old | ⟨start, declared, path⟩
          · exact .inl old
          · exact .inr ⟨entered, List.mem_cons_self, path.head declared⟩
        · exact .inr ⟨entered, List.mem_cons_self, List.mem_singleton.mp isEntered ▸ .refl⟩
      · exact .inr ⟨start, List.mem_cons_of_mem _ scanned, path⟩

/-! ## The walk from every node -/

theorem sound_all : Sound parents [] (all parents) :=
  scans_all.sound List.nodup_nil .initial

/-- The walk from every node finishes every node. -/
theorem mem_finished_all (node : Fin size) : node ∈ (all parents).finished := by
  have scans : Scans parents [] {} (List.finRange size) (all parents) := scans_all
  simpa using scans.covers node (List.mem_finRange node)

/-- The back edges are the edges that do not lead to a node finished before. -/
theorem mem_backEdges_all {child parent : Fin size} :
    (child, parent) ∈ (all parents).backEdges ↔ parent ∈ parents child ∧
      ¬(all parents).finished.idxOf parent < (all parents).finished.idxOf child :=
  sound_all.settled child (mem_finished_all child) parent

/-- No back edge is found twice, if no node has a parent twice. -/
theorem nodup_backEdges_all (simple : ∀ node, (parents node).Nodup) :
    (all parents).backEdges.Nodup :=
  scans_all.nodup_backEdges simple List.nodup_nil .initial (List.nodup_finRange size)
    (by simp) List.nodup_nil

/-- The target of a back edge leads to its source by edges that are no back edges. -/
theorem backEdge_all_closes {child parent : Fin size}
    (found : (child, parent) ∈ (all parents).backEdges) :
    ReflTransGen (fun node target =>
      target ∈ parents node ∧ (node, target) ∉ (all parents).backEdges) parent child :=
  scans_all.backEdge_closes List.nodup_nil .initial (by simp) (by simp)
    (fun _ _ _ declared outside => ⟨declared, outside⟩) found List.not_mem_nil

/-- Every edge that is no back edge leads to a node finished before. -/
theorem idxOf_finished_all_lt {child parent : Fin size} (declared : parent ∈ parents child)
    (kept : (child, parent) ∉ (all parents).backEdges) :
    (all parents).finished.idxOf parent < (all parents).finished.idxOf child := by
  by_contra after
  exact kept (mem_backEdges_all.mpr ⟨declared, after⟩)

/-- The walk from one node finishes exactly what the node leads to. -/
theorem mem_finished_startingAt {start node : Fin size} :
    node ∈ (startingAt parents start).finished ↔
      ReflTransGen (fun child parent => parent ∈ parents child) start node := by
  have scans : Scans parents [] {} [start] (startingAt parents start) := scans_startingAt start
  constructor
  · intro finished
    rcases scans.reached finished with before | ⟨_, isStart, path⟩
    · simp at before
    · exact List.mem_singleton.mp isStart ▸ path
  · intro path
    have sound := scans.sound List.nodup_nil .initial
    induction path with
    | refl => simpa using scans.covers start List.mem_cons_self
    | tail _ declared inductionHypothesis =>
        simpa using sound.closed _ inductionHypothesis _ declared

end SchemaMarkup.Walk
