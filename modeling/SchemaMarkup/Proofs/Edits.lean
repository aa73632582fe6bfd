import SchemaMarkup.Grammar.Property

/-!
# Edits in place

A change of a value can be told in two ways. A function takes the value and returns the changed
one, or a fault. An edit goes through the change step by step: it looks at the value, it writes
into it, and where it breaks off, what it has written stays. `Edit.Makes` says that an edit comes
to what a function says, which is the whole change or, if it fails, no change at all.

An edit that could break off between two writes makes nothing that a function says. Hence the rules
of `Edit.Makes` have an order in them: what can fail is read first (`Edit.makes_read`), and nothing
but writes stands behind a write (`Edit.Makes.write`). `Edit.WritesWhole` is what comes of it for
runs of lines that are written one after the other, whether they fail or not.
-/

namespace SchemaMarkup

/-- A run of lines goes on from what its first line has made. -/
theorem refineAll_cons {Value Line Fault : Type} (refine : Value → Line → Except Fault Value)
    (value : Value) (line : Line) (later : List Line) :
    refineAll refine value (line :: later) =
      refineAll refine ((refine value line).toOption.getD value) later := rfl

/-- A change of a value in place. What is written before a fault stays written. -/
abbrev Edit (Fault Value Result : Type) := ExceptT Fault (StateM Value) Result

namespace Edit

variable {Fault Value Read Line : Type}

/-- How an edit of a value ends, and the value that it leaves behind. -/
def outcome (edit : Edit Fault Value Unit) (value : Value) : Except Fault Unit × Value :=
  edit.run.run value

/-- An edit goes on from the value that its first part leaves, unless that part has failed. -/
theorem outcome_bind (edit : Edit Fault Value Unit) (rest : Unit → Edit Fault Value Unit)
    (value : Value) :
    outcome (edit >>= rest) value =
      match outcome edit value with
      | (.ok (), left) => outcome (rest ()) left
      | (.error fault, left) => (.error fault, left) := by
  change ExceptT.bindCont rest (outcome edit value).1 (outcome edit value).2 = _
  rcases outcome edit value with ⟨fault | _, left⟩
  · rfl
  · rfl

/-! ## What an edit makes of a value -/

/-- An edit leaves the changed value of an outcome or, if that is a fault, the value as it was. -/
def Makes (edit : Edit Fault Value Unit) (value : Value) (made : Except Fault Value) : Prop :=
  outcome edit value = (made.map fun _ => (), made.toOption.getD value)

variable {edit first second : Edit Fault Value Unit} {value : Value}
  {made other : Except Fault Value}

theorem Makes.congr (makes : Makes edit value made) (same : made = other) :
    Makes edit value other :=
  same ▸ makes

theorem makes_throw (fault : Fault) (value : Value) :
    Makes (throw fault) value (.error fault) := rfl

theorem makes_pure (value : Value) : Makes (pure () : Edit Fault Value Unit) value (.ok value) :=
  rfl

theorem makes_modify (change : Value → Value) (value : Value) :
    Makes (modify change : Edit Fault Value Unit) value (.ok (change value)) := rfl

/-- An edit may look at the value. -/
theorem makes_get {rest : Value → Edit Fault Value Unit} (later : Makes (rest value) value made) :
    Makes (get >>= rest) value made := later

/-- What can fail is read before anything is written. -/
theorem makes_read {reading : Except Fault Read} {rest : Read → Edit Fault Value Unit}
    {result : Read → Except Fault Value}
    (later : ∀ read, reading = .ok read → Makes (rest read) value (result read)) :
    Makes (liftM reading >>= rest) value (reading >>= result) := by
  cases reading with
  | error fault => exact makes_throw fault value
  | ok read => exact later read rfl

/-- An edit may be followed by another one that does not fail. -/
theorem Makes.write {rest : Unit → Edit Fault Value Unit} {change : Value → Value}
    (makes : Makes edit value made)
    (later : ∀ changed, made = .ok changed → Makes (rest ()) changed (.ok (change changed))) :
    Makes (edit >>= rest) value (made.map change) := by
  rw [Makes, outcome_bind, makes]
  cases made with
  | error fault => rfl
  | ok changed => exact later changed rfl

theorem makes_ite {condition : Prop} [Decidable condition]
    (holds : condition → Makes first value made) (fails : ¬condition → Makes second value other) :
    Makes (if condition then first else second) value (if condition then made else other) := by
  by_cases decided : condition
  · rw [if_pos decided, if_pos decided]
    exact holds decided
  · rw [if_neg decided, if_neg decided]
    exact fails decided

/-- A condition is checked before anything is written. -/
theorem makes_unless (condition : Prop) [Decidable condition] (fault : Fault)
    (change : Value → Value) (value : Value) :
    Makes (if condition then throw fault else modify change : Edit Fault Value Unit) value
      (if condition then .error fault else .ok (change value)) :=
  makes_ite (fun _ => makes_throw fault value) fun _ => makes_modify change value

theorem Makes.outcome_eq_ok_iff (makes : Makes edit value made) {left : Value} :
    outcome edit value = (.ok (), left) ↔ made = .ok left := by
  rw [makes]
  cases made with
  | error fault => simp [Except.map]
  | ok changed => simp [Except.map, Except.toOption]

theorem Makes.outcome_eq_error_iff (makes : Makes edit value made) {fault : Fault}
    {left : Value} :
    outcome edit value = (.error fault, left) ↔ made = .error fault ∧ left = value := by
  rw [makes]
  cases made with
  | error fault => simp [Except.map, Except.toOption, eq_comm]
  | ok changed => simp [Except.map]

/-! ## Runs of lines -/

/-- The value that a run of lines leaves, in which those that fail are written like the others. -/
def writeAll (write : Line → Edit Fault Value Unit) (value : Value) (lines : List Line) : Value :=
  lines.foldl (fun value line => (outcome (write line) value).2) value

/-- The lines of a run that do not fail when it is their turn. -/
def accepted (write : Line → Edit Fault Value Unit) (value : Value) : List Line → List Line
  | [] => []
  | line :: later =>
      match outcome (write line) value with
      | (.ok (), left) => line :: accepted write left later
      | (.error _, left) => accepted write left later

/-- Lines that are written as a whole or not at all, as a function on values says. -/
structure WritesWhole (write : Line → Edit Fault Value Unit)
    (refine : Value → Line → Except Fault Value) : Prop where
  /-- A line that fails leaves every part of the value as it was. -/
  unchanged : ∀ line value fault left,
    outcome (write line) value = (.error fault, left) → left = value
  /-- The lines that fail are those for which the function has a fault. -/
  fails : ∀ line value fault,
    (∃ left, outcome (write line) value = (.error fault, left)) ↔ refine value line = .error fault
  /-- Any other line leaves the value of the function. -/
  changes : ∀ line value left,
    outcome (write line) value = (.ok (), left) ↔ refine value line = .ok left
  /-- A run leaves the same value without the lines that fail in it. -/
  passesOver : ∀ lines value,
    writeAll write value (accepted write value lines) = writeAll write value lines
  /-- None of the other lines fails without them. -/
  accepts : ∀ lines value,
    accepted write value (accepted write value lines) = accepted write value lines
  /-- That is the value which the function gives if its faults are passed over. -/
  agrees : ∀ lines value, writeAll write value lines = refineAll refine value lines

section Runs

variable {write : Line → Edit Fault Value Unit} {refine : Value → Line → Except Fault Value}
  (makes : ∀ line value, Makes (write line) value (refine value line))
include makes

theorem writeAll_eq_refineAll (lines : List Line) (value : Value) :
    writeAll write value lines = refineAll refine value lines := by
  have step : (fun value line => (outcome (write line) value).2) =
      fun value line => (refine value line).toOption.getD value := by
    funext value line
    rw [makes line value]
  rw [writeAll, refineAll, step]

theorem accepted_cons (line : Line) (later : List Line) (value : Value) :
    accepted write value (line :: later) =
      match refine value line with
      | .ok next => line :: accepted write next later
      | .error _ => accepted write value later := by
  rw [accepted, makes line value]
  cases refine value line with
  | error fault => rfl
  | ok next => rfl

theorem writeAll_accepted (lines : List Line) (value : Value) :
    writeAll write value (accepted write value lines) = writeAll write value lines := by
  simp only [writeAll_eq_refineAll makes]
  induction lines generalizing value with
  | nil => rfl
  | cons line later inductionHypothesis =>
      rw [accepted_cons makes]
      cases isRefined : refine value line with
      | error fault =>
          rw [refineAll_cons, isRefined]
          exact inductionHypothesis value
      | ok next =>
          rw [refineAll_cons, refineAll_cons, isRefined]
          exact inductionHypothesis next

theorem accepted_accepted (lines : List Line) (value : Value) :
    accepted write value (accepted write value lines) = accepted write value lines := by
  induction lines generalizing value with
  | nil => rfl
  | cons line later inductionHypothesis =>
      rw [accepted_cons makes]
      cases isRefined : refine value line with
      | error fault => exact inductionHypothesis value
      | ok next =>
          rw [accepted_cons makes, isRefined]
          exact congrArg (line :: ·) (inductionHypothesis next)

/-- Lines whose edits each make what a function says are written as a whole or not at all. -/
theorem writesWhole_of_makes : WritesWhole write refine where
  unchanged := fun line value _ _ failed =>
    ((makes line value).outcome_eq_error_iff.mp failed).2
  fails := by
    intro line value fault
    simp only [(makes line value).outcome_eq_error_iff, exists_and_left, exists_eq, and_true]
  changes := fun line value _ => (makes line value).outcome_eq_ok_iff
  passesOver := writeAll_accepted makes
  accepts := accepted_accepted makes
  agrees := writeAll_eq_refineAll makes

end Runs

end Edit

end SchemaMarkup
