import SchemaMarkup.Proofs.Reading.Scanning
import SchemaMarkup.Proofs.Reading.SpokenLines

/-!
# Bodies of blocks read by a cursor

The loop over the body of a block and the loop over the lines nested under an item stand at every
line, and each of them has to pass over the lines that say nothing: otherwise a blank line would end
an item. `Cursor.readBody_eq` says that they do. What the loops read are the entries of the lines
that say something, for every way to add entries to what has been read.

An attribute line of an enumeration does not take the lines nested under it, so the loop reads them
like any other. `Enumeration.assemble_eq` says that this makes no difference.
-/

namespace SchemaMarkup

/-! ## Lines before a stop -/

/-- The lines that say something. -/
def spoken (lines : List Line) : List Line :=
  lines.filter fun line => !line.isIgnorable

namespace Cursor

variable {cursor : Cursor} {stop : Nat} {line : Line}

/-- The lines from the cursor up to a line to stop before. -/
def before (cursor : Cursor) (stop : Nat) : List Line :=
  (cursor.lines.drop cursor.position).take (stop - cursor.position)

theorem before_of_stop (stopped : ¬cursor.position < stop) : cursor.before stop = [] := by
  rw [before, Nat.sub_eq_zero_of_le (Nat.le_of_not_lt stopped), List.take_zero]

theorem before_of_none (nothing : cursor.current? = none) : cursor.before stop = [] := by
  rw [before, List.drop_eq_nil_of_le (List.getElem?_eq_none_iff.mp nothing), List.take_nil]

/-- Passing over lines that say nothing leads to the first one that says something. -/
theorem current?_skipIgnorable (cursor : Cursor) :
    cursor.skipIgnorable.current? =
      (cursor.lines.drop cursor.position).find? fun line => !line.isIgnorable := by
  fun_induction skipIgnorable cursor with
  | case1 cursor nothing =>
      rw [nothing, List.drop_eq_nil_of_le (List.getElem?_eq_none_iff.mp nothing), List.find?_nil]
  | case2 cursor line here _ _ silent inductionHypothesis =>
      obtain ⟨isPlace, isLine⟩ := List.getElem?_eq_some_iff.mp here
      rw [inductionHypothesis, position_advance here, lines_advance,
        List.drop_eq_getElem_cons isPlace, isLine, List.find?_cons_of_neg (by simp [silent])]
  | case3 cursor line here _ _ speaks =>
      obtain ⟨isPlace, isLine⟩ := List.getElem?_eq_some_iff.mp here
      rw [here, List.drop_eq_getElem_cons isPlace, isLine,
        List.find?_cons_of_pos (by simpa using speaks)]

/-- To look ahead is to advance and pass over lines that say nothing. -/
theorem peek?_eq (cursor : Cursor) : cursor.peek? = cursor.advance.skipIgnorable.current? := by
  rw [peek?, current?_skipIgnorable, lines_advance]
  cases here : cursor.current? with
  | none =>
      have atEnd := List.getElem?_eq_none_iff.mp here
      have stays : cursor.advance = cursor := by simp [advance, isAtEnd, atEnd]
      rw [stays, List.drop_eq_nil_of_le atEnd, List.drop_eq_nil_of_le (Nat.le_succ_of_le atEnd)]
  | some line => rw [position_advance here]

/-- The line at the cursor is the first of those before the stop. -/
theorem before_of_some (within : cursor.position < stop) (here : cursor.current? = some line) :
    cursor.before stop = line :: cursor.advance.before stop := by
  obtain ⟨isPlace, isLine⟩ := List.getElem?_eq_some_iff.mp here
  obtain ⟨room, isRoom⟩ : ∃ room, stop - cursor.position = room + 1 :=
    ⟨stop - cursor.position - 1, by omega⟩
  have roomBehind : stop - (cursor.position + 1) = room := by omega
  rw [before, before, position_advance here, lines_advance, List.drop_eq_getElem_cons isPlace,
    isLine, isRoom, roomBehind, List.take_succ_cons]

end Cursor

/-- Behind a line that is not nested it does not matter under what item the line could have been. -/
theorem readEntriesUnder_of_not_nested {parent : Option Nat} {line : Line} {later : List Line}
    (apart : parent.any line.isNestedUnder = false) :
    readEntriesUnder parent (line :: later) = readEntriesUnder none (line :: later) := by
  simp [readEntriesUnder, apart]

/-- Lines start with no nested line where none is open. -/
theorem readEntriesUnder_none_fst (lines : List Line) : (readEntriesUnder none lines).1 = [] := by
  cases lines with
  | nil => rfl
  | cons line later =>
      simp only [readEntriesUnder, Option.any_none, Bool.false_eq_true, if_false]
      cases line.kind <;> rfl

@[simp] theorem spoken_nil : spoken [] = [] := rfl

theorem spoken_cons_of_ignorable {line : Line} (silent : line.isIgnorable = true)
    (later : List Line) : spoken (line :: later) = spoken later := by
  rw [spoken, List.filter_cons_of_neg (by simp [silent])]
  rfl

theorem spoken_cons_of_not_ignorable {line : Line} (speaks : line.isIgnorable = false)
    (later : List Line) : spoken (line :: later) = line :: spoken later := by
  rw [spoken, List.filter_cons_of_pos (by simp [speaks])]
  rfl

namespace Cursor

variable {cursor : Cursor} {stop depth : Nat}

theorem lines_takeNested (cursor : Cursor) (depth stop : Nat) :
    (cursor.takeNested depth stop).2.lines = cursor.lines := by
  fun_induction takeNested cursor depth stop with
  | case3 cursor _ line _ _ _ nested behind taken inductionHypothesis =>
      rw [taken, lines_advance] at inductionHypothesis
      exact inductionHypothesis
  | case1 | case2 | case4 => rfl

/-- What is taken under an item are the lines that are nested under it, and what is left holds the
entries behind them. -/
theorem takeNested_eq (cursor : Cursor) (depth stop : Nat) :
    readEntriesUnder (some depth) (spoken (cursor.before stop)) =
      ((cursor.takeNested depth stop).1,
        (readEntriesUnder none (spoken ((cursor.takeNested depth stop).2.before stop))).2) := by
  fun_induction takeNested cursor depth stop with
  | case1 cursor _ nothing => simp [before_of_none nothing, readEntriesUnder]
  | case2 cursor within line here ends =>
      have speaks : line.isIgnorable = false := by
        cases silent : line.isIgnorable <;> simp [silent] at ends ⊢
      have apart : (some depth).any line.isNestedUnder = false := by
        simpa [speaks] using ends
      rw [before_of_some within here, spoken_cons_of_not_ignorable speaks,
        readEntriesUnder_of_not_nested apart]
      exact Prod.ext (readEntriesUnder_none_fst _) rfl
  | case3 cursor within line here goesOn _ nested behind taken inductionHypothesis =>
      rw [taken] at inductionHypothesis
      rw [before_of_some within here]
      cases silent : line.isIgnorable with
      | true =>
          rw [spoken_cons_of_ignorable silent, inductionHypothesis]
          rfl
      | false =>
          have nests : line.isNestedUnder depth = true := by simpa [silent] using goesOn
          rw [spoken_cons_of_not_ignorable silent]
          simp [readEntriesUnder, nests, inductionHypothesis]
  | case4 cursor stopped => simp [before_of_stop stopped, readEntriesUnder]

/-- The entries between the cursor and a line to stop before. -/
def entries (cursor : Cursor) (stop : Nat) : List Entry :=
  (readEntriesUnder none (spoken (cursor.before stop))).2

/-- The entries from a line on, by the kind of the line. -/
theorem entries_of_some {line : Line} (within : cursor.position < stop)
    (here : cursor.current? = some line) :
    cursor.entries stop =
      match line.kind with
      | .ignorable | .prose => cursor.advance.entries stop
      | .heading _ =>
          if line.opensSection then .sectionHeading line :: cursor.advance.entries stop
          else cursor.advance.entries stop
      | .quote _ => .quote line :: cursor.advance.entries stop
      | .item depth =>
          .item depth line (cursor.advance.takeNested depth stop).1 ::
            (cursor.advance.takeNested depth stop).2.entries stop := by
  rw [entries, before_of_some within here]
  cases kind : line.kind with
  | ignorable =>
      rw [spoken_cons_of_ignorable (by simp [Line.isIgnorable, kind])]
      rfl
  | item depth =>
      rw [spoken_cons_of_not_ignorable (by simp [Line.isIgnorable, kind])]
      simp [readEntriesUnder, kind, Line.depth?, takeNested_eq, entries]
  | heading | quote | prose =>
      rw [spoken_cons_of_not_ignorable (by simp [Line.isIgnorable, kind])]
      simp [readEntriesUnder, kind, Line.depth?, entries]

variable {State : Type} {owns : Line → Bool} {add : State → Entry → Except SchemaError State}

/-- Reading the lines under an item that does not own them one after the other comes to the same as
reading them with it. -/
def ReadsApart (owns : Line → Bool) (add : State → Entry → Except SchemaError State)
    (lines : List Line) : Prop :=
  ∀ line ∈ lines, owns line = false → ∀ depth, line.kind = .item depth → ∀ later state,
    (do (readEntriesUnder none later).2.foldlM add (← add state (.item depth line []))) =
      (do
        (readEntriesUnder (some depth) later).2.foldlM add
          (← add state (.item depth line (readEntriesUnder (some depth) later).1)))

/-- Going from line to line up to a stop reads the entries of the lines that say something. -/
theorem readBody_eq (apart : ReadsApart owns add cursor.lines) (stop : Nat) (state : State) :
    cursor.readBody owns add stop state = (cursor.entries stop).foldlM add state := by
  fun_induction readBody owns add stop cursor state with
  | case1 cursor state _ nothing =>
      rw [entries, before_of_none nothing]
      rfl
  | case2 cursor state within line here _ kind inductionHypothesis
  | case3 cursor state within line here _ kind inductionHypothesis =>
      rw [entries_of_some within here, inductionHypothesis (by rwa [lines_advance])]
      simp only [kind]
  | case4 cursor state within line here _ level kind opens inductionHypothesis =>
      rw [entries_of_some within here]
      simp only [kind, opens, if_true, List.foldlM_cons]
      exact bind_congr fun next => inductionHypothesis next (by rwa [lines_advance])
  | case5 cursor state within line here _ level kind opensNot inductionHypothesis =>
      rw [entries_of_some within here, inductionHypothesis (by rwa [lines_advance])]
      simp only [kind, opensNot, if_false, Bool.false_eq_true]
  | case6 cursor state within line here _ indent kind inductionHypothesis =>
      rw [entries_of_some within here]
      simp only [kind, List.foldlM_cons]
      exact bind_congr fun next => inductionHypothesis next (by rwa [lines_advance])
  | case7 cursor state within line here _ depth kind isOwner _ taken inductionHypothesis =>
      rw [entries_of_some within here]
      simp only [kind, List.foldlM_cons]
      refine bind_congr fun next => inductionHypothesis next ?_
      rwa [lines_takeNested, lines_advance]
  | case8 cursor state within line here _ depth kind noOwner inductionHypothesis =>
      have same := apart line (List.mem_of_getElem? here) (by simpa using noOwner) depth kind
        (spoken (cursor.advance.before stop)) state
      rw [takeNested_eq] at same
      rw [entries_of_some within here]
      simp only [kind, List.foldlM_cons]
      refine Eq.trans (bind_congr fun next => ?_) same
      exact inductionHypothesis next (by rwa [lines_advance])
  | case9 cursor state stopped =>
      rw [entries, before_of_stop stopped]
      rfl

end Cursor

/-! ## Entities -/

/-- A model is read from the entries between the cursor and the stop. -/
theorem Model.assemble_eq (dialect : Dialect) (kind : ModelKind) (header : Header)
    (location : Location) (stop : Nat) (cursor : Cursor) :
    assemble dialect kind header location stop cursor =
      read dialect kind header location (cursor.entries stop) := by
  have owned : Cursor.ReadsApart (fun _ => true) (Progress.add dialect) cursor.lines :=
    fun _ _ noOwner => nomatch noOwner
  simp only [assemble, read, Cursor.readBody_eq owned]

namespace Enumeration

/-- Below an attribute line quotes add to the description of the enumeration and items are refused,
whether they are read with the line or by themselves. -/
theorem foldlM_add_eq (progress : Progress) (lines : List Line) :
    (readEntriesUnder none lines).2.foldlM Progress.add progress = (do
      let enumeration ← (readEntriesUnder (some 1) lines).1.foldlM addLoose progress.enumeration
      (readEntriesUnder (some 1) lines).2.foldlM Progress.add { progress with enumeration }) := by
  induction lines generalizing progress with
  | nil => rfl
  | cons line later inductionHypothesis =>
      cases nests : line.isNestedUnder 1 with
      | false =>
          have apart : (some 1).any line.isNestedUnder = false := nests
          rw [readEntriesUnder_of_not_nested apart, readEntriesUnder_none_fst]
          rfl
      | true =>
          cases kind : line.kind with
          | item depth =>
              have deeper : 1 < depth := by simpa [Line.isNestedUnder, kind] using nests
              simp [readEntriesUnder, nests, kind, Progress.add, deeper, addLoose]
              rfl
          | quote indent =>
              let enumeration : Enumeration := { progress.enumeration with
                description := appendParagraph progress.enumeration.description line.content }
              have added : progress.add (.quote line) = .ok { progress with enumeration } := by
                simp only [Progress.add, addLoose, kind]
                rfl
              have addedLoose : progress.enumeration.addLoose line = .ok enumeration := by
                simp only [addLoose, kind, enumeration]
              have alone : (readEntriesUnder none (line :: later)).2 =
                  .quote line :: (readEntriesUnder none later).2 := by
                simp [readEntriesUnder, kind, Line.depth?]
              have under : readEntriesUnder (some 1) (line :: later) =
                  (line :: (readEntriesUnder (some 1) later).1,
                    (readEntriesUnder (some 1) later).2) := by
                simp [readEntriesUnder, nests]
              rw [alone, under, List.foldlM_cons, List.foldlM_cons, added, addedLoose]
              exact inductionHypothesis { progress with enumeration }
          | ignorable | heading | prose => simp [Line.isNestedUnder, kind] at nests

/-- The lines under an attribute line may be read by themselves. -/
theorem readsApart {lines : List Line} (depths : ∀ line ∈ lines, line.depth? ≠ some 0) :
    Cursor.ReadsApart ownsNested Progress.add lines := by
  intro line listed noOwner depth kind later progress
  have isAttribute : line.content.head? = some '@' := by simpa [ownsNested] using noOwner
  have notRoot : depth ≠ 0 := fun isRoot => depths line listed (by simp [Line.depth?, kind, isRoot])
  by_cases deeper : 1 < depth
  · simp [Progress.add, deeper]
    rfl
  · obtain rfl : depth = 1 := by omega
    simp [Progress.add, isAttribute, foldlM_add_eq]

/-- An enumeration is read from the entries between the cursor and the stop. -/
theorem assemble_eq {cursor : Cursor} (depths : ∀ line ∈ cursor.lines, line.depth? ≠ some 0)
    (header : Header) (location : Location) (stop : Nat) :
    assemble header location stop cursor = read header location (cursor.entries stop) := by
  simp only [assemble, read, ofHeader, Cursor.readBody_eq (readsApart depths)]
  cases header.inherits <;> rfl

end Enumeration

end SchemaMarkup
