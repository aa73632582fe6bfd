import SchemaMarkup.Proofs.Outcome

/-!
# Two runs side by side

Two runs have the same outcome up to a relation if both end in one and the same fault, or both in
values that the relation holds of. `SameOutcome` is compositional: two readers that are put
together from steps with the same outcome have the same outcome, whatever the values between the
steps differ in. So a difference between two ways of reading has to be looked at only in the
steps that make it.
-/

namespace SchemaMarkup

variable {Fault Other Item Value Twin Result Mirror : Type}

/-- Both runs end in one fault, or in values that are related. -/
inductive SameOutcome (relates : Value → Twin → Prop) :
    Except Fault Value → Except Fault Twin → Prop where
  | error (fault : Fault) : SameOutcome relates (.error fault) (.error fault)
  | ok {value : Value} {twin : Twin} (related : relates value twin) :
      SameOutcome relates (.ok value) (.ok twin)

namespace SameOutcome

variable {relates : Value → Twin → Prop} {relatesLast : Result → Mirror → Prop}
  {first : Except Fault Value} {second : Except Fault Twin}

/-- A run has the same outcome as itself. -/
theorem refl {relates : Value → Value → Prop} (reflexive : ∀ value, relates value value)
    (outcome : Except Fault Value) : SameOutcome relates outcome outcome := by
  cases outcome with
  | error fault => exact error fault
  | ok value => exact ok (reflexive value)

theorem bind {next : Value → Except Fault Result} {nextTwin : Twin → Except Fault Mirror}
    (same : SameOutcome relates first second)
    (later : ∀ value twin, relates value twin →
      SameOutcome relatesLast (next value) (nextTwin twin)) :
    SameOutcome relatesLast (first >>= next) (second >>= nextTwin) := by
  cases same with
  | error fault => exact error fault
  | ok related => exact later _ _ related

/-- Two runs with one first step have the same outcome if they have it from there on. -/
theorem bind_left (step : Except Fault Value) {next : Value → Except Fault Result}
    {nextTwin : Value → Except Fault Mirror}
    (later : ∀ value, step = .ok value → SameOutcome relatesLast (next value) (nextTwin value)) :
    SameOutcome relatesLast (step >>= next) (step >>= nextTwin) := by
  cases step with
  | error fault => exact error fault
  | ok value => exact later value rfl

theorem map {change : Value → Result} {changeTwin : Twin → Mirror}
    (same : SameOutcome relates first second)
    (later : ∀ value twin, relates value twin → relatesLast (change value) (changeTwin twin)) :
    SameOutcome relatesLast (first.map change) (second.map changeTwin) := by
  cases same with
  | error fault => exact error fault
  | ok related => exact ok (later _ _ related)

/-- Another wording of the faults words one fault alike. -/
theorem mapError (same : SameOutcome relates first second) (reword : Fault → Other) :
    SameOutcome relates (first.mapError reword) (second.mapError reword) := by
  cases same with
  | error fault => exact error (reword fault)
  | ok related => exact ok related

/-- Loops whose rounds have the same outcome have the same outcome. -/
theorem foldlM {step : Value → Item → Except Fault Value}
    {stepTwin : Twin → Item → Except Fault Twin}
    (rounds : ∀ value twin item, relates value twin →
      SameOutcome relates (step value item) (stepTwin twin item))
    (items : List Item) {value : Value} {twin : Twin} (related : relates value twin) :
    SameOutcome relates (items.foldlM step value) (items.foldlM stepTwin twin) := by
  induction items generalizing value twin with
  | nil => exact ok related
  | cons item rest inductionHypothesis =>
      simp only [List.foldlM_cons]
      exact (rounds value twin item related).bind fun _ _ => inductionHypothesis

/-- Lists are read in step if their items are. -/
theorem mapM {read : Item → Except Fault Value} {readTwin : Item → Except Fault Twin}
    {items : List Item} (each : ∀ item ∈ items, SameOutcome relates (read item) (readTwin item)) :
    SameOutcome (List.Forall₂ relates) (items.mapM read) (items.mapM readTwin) := by
  induction items with
  | nil => exact ok .nil
  | cons item rest inductionHypothesis =>
      obtain ⟨here, later⟩ := List.forall_mem_cons.mp each
      simp only [List.mapM_cons]
      refine here.bind fun value twin related => ?_
      refine (inductionHypothesis later).bind fun values twins areRelated => ?_
      exact ok (.cons related areRelated)

end SameOutcome

end SchemaMarkup
