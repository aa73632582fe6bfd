import SchemaMarkup.Proofs.Classification

/-!
# What attributes mark

Several attributes of a field may speak of one thing, and each of them is applied to the field that
those before it have left. Still what an attribute comes to is a matter of the attribute alone:
`Registry.judge` says whether it is accepted and what it marks, and `Handler.apply_eq` that any
field takes the markings as they are, laid over its own. Markings laid over each other are markings
again (`Markings.overlaid_assoc`), so that a list of attributes comes to one overlay, with which a
field is classified at one stroke (`Registry.classifyField_eq`). Laid over a second time it shows
nothing new (`Markings.overlaid_self`), whatever the field was at first.
-/

namespace SchemaMarkup

namespace FieldFlags

/-- The flags of either set. -/
def union (earlier later : FieldFlags) : FieldFlags where
  primaryKey := earlier.primaryKey || later.primaryKey
  foreignKey := earlier.foreignKey || later.foreignKey
  unique := earlier.unique || later.unique
  indexed := earlier.indexed || later.indexed
  required := earlier.required || later.required
  excluded := earlier.excluded || later.excluded
  jsonIgnored := earlier.jsonIgnored || later.jsonIgnored

theorem has_union (earlier later : FieldFlags) (flag : FieldFlag) :
    (earlier.union later).has flag = (earlier.has flag || later.has flag) := by
  cases flag <;> rfl

theorem has_empty (flag : FieldFlag) : ({} : FieldFlags).has flag = false := by
  cases flag <;> rfl

/-- Sets of flags are equal if they hold the same flags. -/
theorem eq_of_has {flags others : FieldFlags} (same : ∀ flag, flags.has flag = others.has flag) :
    flags = others := by
  cases flags
  cases others
  congr
  · exact same .primaryKey
  · exact same .foreignKey
  · exact same .unique
  · exact same .indexed
  · exact same .required
  · exact same .excluded
  · exact same .jsonIgnored

theorem union_assoc (first second third : FieldFlags) :
    (first.union second).union third = first.union (second.union third) :=
  eq_of_has fun flag => by simp only [has_union, Bool.or_assoc]

theorem union_self (flags : FieldFlags) : flags.union flags = flags :=
  eq_of_has fun flag => by rw [has_union, Bool.or_self]

@[simp] theorem union_empty (flags : FieldFlags) : flags.union {} = flags :=
  eq_of_has fun flag => by rw [has_union, has_empty, Bool.or_false]

/-- A flag is added as a set of its own. -/
@[simp] theorem union_add_empty (flags : FieldFlags) (flag : FieldFlag) :
    flags.union (({} : FieldFlags).add flag) = flags.add flag :=
  eq_of_has fun asked => by rw [has_union, has_add, has_add, has_empty, Bool.false_or]

end FieldFlags

/-- What attributes can set in a field. Nothing is set at first. -/
@[ext] structure Markings where
  flags : FieldFlags := {}
  /-- Whether null is left to the field. -/
  nullable : Bool := true
  referenceTarget : Option String := none
  maxLength : Option UInt32 := none
  columnType : Option String := none
  insertExpression : Option String := none
  updateExpression : Option String := none
deriving DecidableEq, Repr

namespace Markings

/-- Markings laid over earlier ones. Flags add up, null is excluded for good, and of two values the
later one shows. -/
def overlaid (earlier later : Markings) : Markings where
  flags := earlier.flags.union later.flags
  nullable := earlier.nullable && later.nullable
  referenceTarget := later.referenceTarget.or earlier.referenceTarget
  maxLength := later.maxLength.or earlier.maxLength
  columnType := later.columnType.or earlier.columnType
  insertExpression := later.insertExpression.or earlier.insertExpression
  updateExpression := later.updateExpression.or earlier.updateExpression

theorem overlaid_assoc (first second third : Markings) :
    (first.overlaid second).overlaid third = first.overlaid (second.overlaid third) := by
  apply Markings.ext
  · exact FieldFlags.union_assoc ..
  · exact Bool.and_assoc ..
  all_goals exact Option.or_assoc.symm

theorem overlaid_self (markings : Markings) : markings.overlaid markings = markings := by
  apply Markings.ext
  · exact FieldFlags.union_self _
  · exact Bool.and_self _
  all_goals exact Option.or_self

theorem overlaid_empty (markings : Markings) : markings.overlaid {} = markings := by
  apply Markings.ext
  · exact FieldFlags.union_empty _
  · exact Bool.and_true _
  all_goals exact Option.none_or

/-- Markings laid over each other, the later ones on top. -/
def layered (layers : List Markings) : Markings :=
  layers.foldr overlaid {}

theorem layered_cons (bottom : Markings) (layers : List Markings) :
    layered (bottom :: layers) = bottom.overlaid (layered layers) := rfl

end Markings

namespace Field

/-- What is set in a field of all that attributes can set. -/
def markings (field : Field) : Markings where
  flags := field.flags
  nullable := field.nullable
  referenceTarget := field.referenceTarget
  maxLength := field.maxLength
  columnType := field.columnType
  insertExpression := field.insertExpression
  updateExpression := field.updateExpression

/-- The field with markings in place of its own. -/
def withMarkings (field : Field) (markings : Markings) : Field :=
  { field with
    flags := markings.flags
    nullable := markings.nullable
    referenceTarget := markings.referenceTarget
    maxLength := markings.maxLength
    columnType := markings.columnType
    insertExpression := markings.insertExpression
    updateExpression := markings.updateExpression }

/-- The field with markings laid over its own. -/
def marked (field : Field) (markings : Markings) : Field :=
  field.withMarkings (field.markings.overlaid markings)

theorem marked_eq (field : Field) (markings : Markings) :
    field.marked markings =
      { field with
        flags := field.flags.union markings.flags
        nullable := field.nullable && markings.nullable
        referenceTarget := markings.referenceTarget.or field.referenceTarget
        maxLength := markings.maxLength.or field.maxLength
        columnType := markings.columnType.or field.columnType
        insertExpression := markings.insertExpression.or field.insertExpression
        updateExpression := markings.updateExpression.or field.updateExpression } := rfl

theorem markings_marked (field : Field) (markings : Markings) :
    (field.marked markings).markings = field.markings.overlaid markings := rfl

theorem marked_marked (field : Field) (first second : Markings) :
    (field.marked first).marked second = field.marked (first.overlaid second) := by
  rw [marked, markings_marked, Markings.overlaid_assoc]
  rfl

theorem marked_empty (field : Field) : field.marked {} = field := by
  rw [marked, Markings.overlaid_empty]
  rfl

end Field

namespace Handler

/-- What an attribute marks in a field of which nothing is known, if the handler accepts it. -/
def marks (handler : Handler) (call : Attribute) : Except Rejection Markings :=
  (handler.apply { name := "", nullable := true } call).map Field.markings

/-- A handler does the same to all fields. -/
theorem apply_eq (handler : Handler) (field : Field) (call : Attribute) :
    handler.apply field call = (handler.marks call).map field.marked := by
  cases handler with
  | foreignKey =>
      simp only [marks, apply, Field.applyForeignKey]
      split
      · split
        · rfl
        · simp [Except.map, Field.markings, Field.marked_eq]
      · simp [Except.map, Field.markings, Field.marked_eq]
  | maxLength =>
      simp only [marks, apply, Field.applyMaxLength]
      split
      · rfl
      · split
        · split
          · rfl
          · simp [Except.map, Field.markings, Field.marked_eq]
        · rfl
  | columnType =>
      simp only [marks, apply, Field.applyColumnType]
      split
      · split
        · rfl
        · simp [Except.map, Field.markings, Field.marked_eq]
      · rfl
  | expression trigger =>
      simp only [marks, apply, Field.applyExpression]
      split
      · rfl
      · simp [Except.map, Field.markings, Field.marked_eq]
      · simp [Except.map, Field.markings, Field.marked_eq]
  | _ => simp [marks, apply, Except.map, Field.markings, Field.marked_eq]

end Handler

/-- What becomes of an attribute. -/
inductive Verdict where
  /-- No handler answers to its name. -/
  | unknown
  | rejected (rejection : Rejection)
  | accepted (marked : Markings)
deriving DecidableEq, Repr

namespace Verdict

/-- What an attribute marks if it is accepted. -/
@[simp] def marked? : Verdict → Option Markings
  | .accepted marked => some marked
  | _ => none

/-- Why an attribute is rejected if it is. -/
@[simp] def rejection? : Verdict → Option Rejection
  | .rejected rejection => some rejection
  | _ => none

end Verdict

namespace Registry

variable (registry : Registry)

/-- What becomes of an attribute, at whatever field it stands. -/
def judge (call : Attribute) : Verdict :=
  match registry.handlerFor? call.name with
  | none => .unknown
  | some handler =>
      match handler.marks call with
      | .ok marked => .accepted marked
      | .error rejection => .rejected rejection

/-- Whether some handler claims an attribute and accepts it. -/
def recognizes (call : Attribute) : Bool :=
  (registry.judge call).marked?.isSome

/-- Why the handler of an attribute rejects it, if it does. -/
def rejection? (call : Attribute) : Option Rejection :=
  (registry.judge call).rejection?

/-- The warning for an attribute that is rejected, at the place of its field. -/
def warning? (location : Location) (call : Attribute) : Option Diagnostic :=
  (registry.rejection? call).map fun rejection =>
    Diagnostic.invalidAttributeArguments call.raw rejection.message location

/-- What a list of attributes marks. -/
def markings (calls : List Attribute) : Markings :=
  Markings.layered (calls.filterMap fun call => (registry.judge call).marked?)

theorem recognizes_iff {call : Attribute} (field : Field) :
    registry.recognizes call = true ↔
      ∃ handler, registry.handlerFor? call.name = some handler ∧
        ∃ changed, handler.apply field call = .ok changed := by
  rw [recognizes, judge]
  cases registry.handlerFor? call.name with
  | none => simp
  | some handler =>
      simp only [Handler.apply_eq, Option.some.injEq, exists_eq_left']
      cases handler.marks call with
      | ok marked => simp [Except.map]
      | error rejection => simp [Except.map]

theorem rejection?_eq_some_iff {call : Attribute} {rejection : Rejection} (field : Field) :
    registry.rejection? call = some rejection ↔
      ∃ handler, registry.handlerFor? call.name = some handler ∧
        handler.apply field call = .error rejection := by
  rw [rejection?, judge]
  cases registry.handlerFor? call.name with
  | none => simp
  | some handler =>
      simp only [Handler.apply_eq, Option.some.injEq, exists_eq_left']
      cases handler.marks call with
      | ok marked => simp [Except.map]
      | error rejection => simp [Except.map]

/-- Each attribute is dealt with as it is judged. -/
theorem step_eq (progress : Progress) (call : Attribute) :
    registry.step progress call =
      match registry.judge call with
      | .unknown => { progress with unrecognized := progress.unrecognized ++ [call] }
      | .rejected rejection =>
          { progress with
            unrecognized := progress.unrecognized ++ [call]
            warnings := progress.warnings ++ [Diagnostic.invalidAttributeArguments call.raw
              rejection.message progress.field.location] }
      | .accepted marked => { progress with field := progress.field.marked marked } := by
  rw [step, judge]
  cases registry.handlerFor? call.name with
  | none => rfl
  | some handler =>
      simp only [Handler.apply_eq]
      cases handler.marks call with
      | ok marked => rfl
      | error rejection => rfl

/-- A list of attributes is applied at one stroke. -/
theorem run_eq (calls : List Attribute) (progress : Progress) :
    calls.foldl registry.step progress =
      { field := progress.field.marked (registry.markings calls)
        unrecognized :=
          progress.unrecognized ++ calls.filter fun call => !registry.recognizes call
        warnings :=
          progress.warnings ++ calls.filterMap (registry.warning? progress.field.location) } := by
  induction calls generalizing progress with
  | nil => simp [markings, Markings.layered, Field.marked_empty]
  | cons call later inductionHypothesis =>
      rw [List.foldl_cons, inductionHypothesis, step_eq]
      cases judged : registry.judge call with
      | unknown => simp [markings, recognizes, warning?, rejection?, judged]
      | rejected rejection => simp [markings, recognizes, warning?, rejection?, judged]
      | accepted marked =>
          simp [markings, recognizes, warning?, rejection?, judged, Markings.layered_cons,
            Field.marked_marked]
          rfl

/-- A field is classified at one stroke. -/
theorem classifyField_eq (field : Field) :
    registry.classifyField field =
      ({ field.marked (registry.markings field.attributes) with
          unrecognizedAttributes :=
            field.attributes.filter fun call => !registry.recognizes call },
        field.attributes.filterMap (registry.warning? field.location)) := by
  rw [classifyField, run_eq]
  rfl

/-- Attributes that are not recognized mark nothing. -/
theorem markings_filter (calls : List Attribute) :
    registry.markings (calls.filter registry.recognizes) = registry.markings calls := by
  rw [markings, List.filterMap_filter]
  refine congrArg Markings.layered (List.filterMap_congr fun call _ => ?_)
  rw [recognizes]
  cases (registry.judge call).marked? with
  | none => rfl
  | some marked => rfl

/-- Classification leaves the attributes of a field where they are. -/
theorem attributes_classifyField (field : Field) :
    (registry.classifyField field).1.attributes = field.attributes := by
  rw [registry.classifiesTo_classifyField field]
  rfl

/-- A field that is classified again stays as it is and gives the same warnings. -/
theorem classifyField_classifyField (field : Field) :
    registry.classifyField (registry.classifyField field).1 = registry.classifyField field := by
  have again : (field.marked (registry.markings field.attributes)).marked
      (registry.markings field.attributes) =
        field.marked (registry.markings field.attributes) := by
    rw [Field.marked_marked, Markings.overlaid_self]
  rw [classifyField_eq _ (registry.classifyField field).1, attributes_classifyField,
    location_classifyField, classifyField_eq]
  -- No marking depends on what was left to generators before, so that part may be set last.
  exact congrArg (fun marked : Field =>
    ({ marked with
        unrecognizedAttributes :=
          field.attributes.filter fun call => !registry.recognizes call },
      field.attributes.filterMap (registry.warning? field.location))) again

end Registry

end SchemaMarkup
