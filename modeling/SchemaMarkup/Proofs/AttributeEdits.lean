import SchemaMarkup.Proofs.Edits
import SchemaMarkup.Proofs.Markings
import SchemaMarkup.Proofs.Nullability

/-!
# Attributes as edits

A handler may have to write into a field twice: a key is a flag and excludes null, a foreign key is
a target and a flag. Here handlers write in place, one component after the other, and an attribute
that is rejected leaves in the field whatever was written before. `Handler.makes_write` shows that
nothing was, so classification in place (`Registry.classifyInPlace`) comes to what classification
says of whole fields.

`Registry.ClassifiesEach` is the account of both. The attributes that are not recognized are handed
on, those of them that are rejected are reported, and what is set is set by the others alone.
-/

namespace SchemaMarkup

open Edit

/-! ## Handlers that write in place -/

namespace Field

/-- Sets a flag of the field. -/
def writeFlag (flag : FieldFlag) : Edit Rejection Field Unit :=
  modify fun field => { field with flags := field.flags.add flag }

/-- Sets a flag and excludes null. -/
def writeNotNull (flag : FieldFlag) : Edit Rejection Field Unit := do
  writeFlag flag
  modify fun field => { field with nullable := false }

/-- Writes the target of a foreign key if one is named. -/
def writeTarget (named : Option String) : Edit Rejection Field Unit :=
  match named with
  | none => pure ()
  | some target =>
      if target.isEmpty then throw .emptyTarget
      else modify fun field => { field with referenceTarget := some target }

/-- Writes the target that the attribute names, and sets the flag behind it. -/
def writeForeignKey (call : Attribute) : Edit Rejection Field Unit := do
  let named := (call.named? "target").map fun target => String.ofList (Text.unquote target.toList)
  writeTarget (call.unquotedFirst?.or named)
  writeFlag .foreignKey

/-- Writes the positive length that the attribute names. -/
def writeMaxLength (call : Attribute) : Edit Rejection Field Unit :=
  match call.positional.head? with
  | none => throw .missingLength
  | some argument =>
      match Numeral.read? (Text.unquote argument.toList) with
      | some length =>
          if length = 0 then throw (.notPositive argument)
          else modify fun field => { field with maxLength := some length }
      | none => throw (.notPositive argument)

/-- Writes the column type that the attribute names. -/
def writeColumnType (call : Attribute) : Edit Rejection Field Unit :=
  match (call.named? "TypeName").or call.unquotedFirst? with
  | some columnType =>
      if columnType.isEmpty then throw .missingColumnType
      else modify fun field => { field with columnType := some columnType }
  | none => throw .missingColumnType

/-- Writes the computed value that the attribute names. -/
def writeExpression (trigger : Trigger) (call : Attribute) : Edit Rejection Field Unit :=
  match call.expression?.filter (!·.isEmpty) with
  | none => throw .missingExpression
  | some expression =>
      match trigger with
      | .insert => modify fun field => { field with insertExpression := some expression }
      | .update => modify fun field => { field with updateExpression := some expression }

variable (field : Field)

theorem makes_writeNotNull (flag : FieldFlag) :
    Makes (writeNotNull flag) field
      (.ok { field with flags := field.flags.add flag, nullable := false }) := by
  refine ((makes_modify _ field).write fun _ _ => makes_modify _ _).congr ?_
  rfl

theorem makes_writeTarget (named : Option String) :
    Makes (writeTarget named) field
      (match named with
      | none => .ok field
      | some target =>
          if target.isEmpty then .error .emptyTarget
          else .ok { field with referenceTarget := some target }) := by
  cases named with
  | none => exact makes_pure field
  | some target => exact makes_unless _ _ _ _

/-- The flag of a foreign key stands behind everything that can fail. -/
theorem makes_writeForeignKey (call : Attribute) :
    Makes (writeForeignKey call) field (field.applyForeignKey call) := by
  unfold writeForeignKey applyForeignKey
  dsimp only
  generalize call.unquotedFirst?.or
    ((call.named? "target").map fun target => String.ofList (Text.unquote target.toList)) = named
  refine ((makes_writeTarget field named).write fun _ _ => makes_modify _ _).congr ?_
  cases named with
  | none => rfl
  | some target =>
      dsimp only
      by_cases isEmpty : target.isEmpty = true
      · rw [if_pos isEmpty, if_pos isEmpty]
        rfl
      · rw [if_neg isEmpty, if_neg isEmpty]
        rfl

theorem makes_writeMaxLength (call : Attribute) :
    Makes (writeMaxLength call) field (field.applyMaxLength call) := by
  unfold writeMaxLength applyMaxLength
  cases call.positional.head? with
  | none => exact makes_throw _ _
  | some argument =>
      dsimp only
      cases Numeral.read? (Text.unquote argument.toList) with
      | none => exact makes_throw _ _
      | some length => exact makes_unless _ _ _ _

theorem makes_writeColumnType (call : Attribute) :
    Makes (writeColumnType call) field (field.applyColumnType call) := by
  unfold writeColumnType applyColumnType
  cases (call.named? "TypeName").or call.unquotedFirst? with
  | none => exact makes_throw _ _
  | some columnType => exact makes_unless _ _ _ _

theorem makes_writeExpression (trigger : Trigger) (call : Attribute) :
    Makes (writeExpression trigger call) field (field.applyExpression trigger call) := by
  unfold writeExpression applyExpression
  cases call.expression?.filter (!·.isEmpty) with
  | none => exact makes_throw _ _
  | some expression =>
      cases trigger with
      | insert => exact makes_modify _ _
      | update => exact makes_modify _ _

end Field

namespace Handler

/-- Writes the meaning of an attribute into the field. -/
def write (handler : Handler) (call : Attribute) : Edit Rejection Field Unit :=
  match handler with
  | .primaryKey => Field.writeNotNull .primaryKey
  | .required => Field.writeNotNull .required
  | .unique => Field.writeFlag .unique
  | .indexed => Field.writeFlag .indexed
  | .excluded => Field.writeFlag .excluded
  | .jsonIgnored => Field.writeFlag .jsonIgnored
  | .foreignKey => Field.writeForeignKey call
  | .maxLength => Field.writeMaxLength call
  | .columnType => Field.writeColumnType call
  | .expression trigger => Field.writeExpression trigger call

/-- A handler writes the whole meaning of an attribute or nothing. -/
theorem makes_write (handler : Handler) (field : Field) (call : Attribute) :
    Makes (handler.write call) field (handler.apply field call) := by
  cases handler with
  | primaryKey => exact field.makes_writeNotNull .primaryKey
  | required => exact field.makes_writeNotNull .required
  | foreignKey => exact field.makes_writeForeignKey call
  | maxLength => exact field.makes_writeMaxLength call
  | columnType => exact field.makes_writeColumnType call
  | expression trigger => exact field.makes_writeExpression trigger call
  | _ => exact makes_modify _ field

end Handler

namespace Registry

variable (registry : Registry)

/-! ## Classification in place -/

/-- Applies one more attribute in place. What a handler has written into the field stays there, also
if it rejects the attribute in the end. -/
def stepInPlace (progress : Progress) (call : Attribute) : Progress :=
  match registry.handlerFor? call.name with
  | none => { progress with unrecognized := progress.unrecognized ++ [call] }
  | some handler =>
      match outcome (handler.write call) progress.field with
      | (.ok (), field) => { progress with field }
      | (.error rejection, field) =>
          let warning := Diagnostic.invalidAttributeArguments call.raw rejection.message
            field.location
          { field
            unrecognized := progress.unrecognized ++ [call]
            warnings := progress.warnings ++ [warning] }

/-- Classifies a field in place. -/
def classifyInPlace (field : Field) : Field × List Diagnostic :=
  let progress := field.attributes.foldl registry.stepInPlace { field }
  ({ progress.field with unrecognizedAttributes := progress.unrecognized }, progress.warnings)

theorem stepInPlace_eq (progress : Progress) (call : Attribute) :
    registry.stepInPlace progress call = registry.step progress call := by
  rw [stepInPlace, step]
  cases registry.handlerFor? call.name with
  | none => rfl
  | some handler =>
      dsimp only
      rw [handler.makes_write progress.field call]
      cases handler.apply progress.field call with
      | ok changed => rfl
      | error rejection => rfl

theorem classifyInPlace_eq (field : Field) :
    registry.classifyInPlace field = registry.classifyField field := by
  have step : registry.stepInPlace = registry.step := by
    funext progress call
    exact registry.stepInPlace_eq progress call
  rw [classifyInPlace, step, classifyField]

/-! ## Attribute by attribute -/

/-- The field without the attributes that no handler claims and those that are rejected. -/
def withRecognized (field : Field) : Field :=
  { field with
    frameworkAttributes := field.frameworkAttributes.filter registry.recognizes
    semanticAttributes := field.semanticAttributes.filter registry.recognizes }

theorem attributes_withRecognized (field : Field) :
    (registry.withRecognized field).attributes = field.attributes.filter registry.recognizes :=
  (List.filter_append ..).symm

/-- The handlers of a registry may come in any order and any number: a name is claimed by the one
that answers to it if that one is there. -/
theorem handlerFor?_eq_some_iff {name : String} {handler : Handler} :
    registry.handlerFor? name = some handler ↔
      handler ∈ registry.handlers ∧ handler.answersTo name = true := by
  have ofFound : ∀ found, registry.handlerFor? name = some found →
      found ∈ registry.handlers ∧ found.answersTo name = true := fun found isFound =>
    ⟨List.mem_reverse.mp (List.mem_of_find?_eq_some isFound),
      List.find?_some (p := fun handler : Handler => handler.answersTo name) isFound⟩
  constructor
  · exact ofFound handler
  · rintro ⟨listed, answers⟩
    cases isFound : registry.handlerFor? name with
    | none =>
        have registered := List.mem_reverse.mpr listed
        exact absurd answers (List.find?_eq_none.mp isFound handler registered)
    | some found => rw [Handler.eq_of_answersTo (ofFound found isFound).2 answers]

/-- How a field is classified, each of its attributes for itself. -/
structure ClassifiesEach (field : Field) : Prop where
  /-- Whatever has been made of a field, an attribute is recognized if a handler claims its name and
  accepts it. -/
  recognized : ∀ call state, registry.recognizes call = true ↔
    ∃ handler ∈ registry.handlers, handler.answersTo call.name = true ∧
      ∃ changed, handler.apply state call = .ok changed
  /-- It is rejected, again whatever has been made of the field, if that handler does so. -/
  rejected : ∀ call state rejection, registry.rejection? call = some rejection ↔
    ∃ handler ∈ registry.handlers, handler.answersTo call.name = true ∧
      handler.apply state call = .error rejection
  /-- All others are left to generators, those in square brackets first. -/
  unrecognized : (registry.classifyField field).1.unrecognizedAttributes =
    (field.frameworkAttributes ++ field.semanticAttributes).filter
      fun call => !registry.recognizes call
  /-- There is one warning for each attribute that is rejected, in the same order. -/
  warnings : (registry.classifyField field).2 =
    (field.frameworkAttributes ++ field.semanticAttributes).filterMap fun call =>
      (registry.rejection? call).map fun rejection =>
        Diagnostic.invalidAttributeArguments call.raw rejection.message field.location
  /-- The written attributes stay where they are. -/
  frameworkAttributes :
    (registry.classifyField field).1.frameworkAttributes = field.frameworkAttributes
  semanticAttributes :
    (registry.classifyField field).1.semanticAttributes = field.semanticAttributes
  /-- So does everything else that no attribute can set. -/
  unrelated : field.ClassifiesTo (registry.classifyField field).1
  /-- What is set is the same without the attributes that are not recognized. -/
  markings : (registry.classifyField field).1.markings =
    (registry.classifyField (registry.withRecognized field)).1.markings
  /-- Without them nothing is left to generators or reported. -/
  complete : (registry.classifyField (registry.withRecognized field)).1.unrecognizedAttributes = [] ∧
    (registry.classifyField (registry.withRecognized field)).2 = []
  /-- All of this holds of handlers that write in place, too. -/
  inPlace : registry.classifyInPlace field = registry.classifyField field

/-- No attribute that is recognized is rejected. -/
theorem rejection?_of_recognizes {call : Attribute} (recognized : registry.recognizes call = true) :
    registry.rejection? call = none := by
  rw [recognizes] at recognized
  rw [rejection?]
  cases judged : registry.judge call with
  | accepted marked => rfl
  | unknown =>
      rw [judged] at recognized
      contradiction
  | rejected rejection =>
      rw [judged] at recognized
      contradiction

/-- Every registry classifies every field attribute by attribute. -/
theorem classifiesEach (field : Field) : registry.ClassifiesEach field where
  recognized := by
    intro call state
    simp only [registry.recognizes_iff state, handlerFor?_eq_some_iff, and_assoc]
  rejected := by
    intro call state rejection
    simp only [registry.rejection?_eq_some_iff state, handlerFor?_eq_some_iff, and_assoc]
  unrecognized := by
    rw [classifyField_eq]
    rfl
  warnings := by
    rw [classifyField_eq]
    rfl
  frameworkAttributes := by
    rw [registry.classifiesTo_classifyField field]
    rfl
  semanticAttributes := by
    rw [registry.classifiesTo_classifyField field]
    rfl
  unrelated := registry.classifiesTo_classifyField field
  markings := by
    rw [classifyField_eq, classifyField_eq, attributes_withRecognized, markings_filter]
    rfl
  complete := by
    rw [classifyField_eq, attributes_withRecognized]
    constructor
    · apply List.filter_eq_nil_iff.mpr
      intro call listed
      simp [(List.mem_filter.mp listed).2]
    · apply List.filterMap_eq_nil_iff.mpr
      intro call listed
      rw [warning?, registry.rejection?_of_recognizes (List.mem_filter.mp listed).2]
      rfl
  inPlace := registry.classifyInPlace_eq field

/-- A foreign key whose target is empty is neither flagged nor pointed anywhere, and of two lengths
the second one counts. -/
example :
    (fun result : Field × List Diagnostic =>
        (result.1.markings, result.1.unrecognizedAttributes.map Attribute.raw, result.2.length))
      (standard.classifyInPlace
        { name := "code"
          frameworkAttributes :=
            [⟨"FK", ["\"\""], "FK(\"\")"⟩, ⟨"MaxLength", ["8"], "MaxLength(8)"⟩]
          semanticAttributes :=
            [⟨"searchable", [], "searchable"⟩, ⟨"maxlength", ["20"], "maxlength(20)"⟩] }) =
      ({ nullable := false, maxLength := some 20 }, ["FK(\"\")", "searchable"], 1) := by
  decide +kernel

end Registry

end SchemaMarkup
