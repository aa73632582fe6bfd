import SchemaMarkup.Grammar.Constraint
import SchemaMarkup.Proofs.Edits
import SchemaMarkup.Proofs.Reading.FieldLines

/-!
# Property lines as edits

A property line refines a field, a relation or an index that is already there, and a line may say
several things about it: a type comes with a length or options and with a default value, attributes
come with a description, and the name of an index follows its fields. Here each line is an edit in
place that writes these parts one by one, in the order in which they are found. Some of them can be
written only after others have been read, so it is no matter of course that an edit which breaks off
has written nothing.

It holds because every text is read to its end before the first part is written. `writeLine` makes
what `refine` says of a field (`Field.makes_writeLine`), of a relation and of an index, and
`propertyLines_writeWhole` puts the three together: a line that fails changes nothing, and a run of
lines comes to the same without the lines that fail in it.
-/

namespace SchemaMarkup

open Edit

namespace Field

/-! ## Fields -/

/-- Writes what goes with a type: options with a type `enum`, a length with any other. -/
def writeExtent (type : TypeExpression) : Edit LineFault Field Unit := do
  if equalIgnoringCase type.name "enum" then
    let options ← readTypeOptions type
    modify fun field => { field with options }
    modify fun field => { field with length := none }
  else if type.rest.isEmpty then
    let length ← (type.inner.mapM Text.readLength : Except LineFault (Option Length))
    modify fun field => { field with length }
  else
    throw (.textAfterType (String.ofList type.rest) type.name)

/-- Writes a type. It makes the field nullable or leaves that as it was. -/
def writeType (text : Text) : Edit LineFault Field Unit := do
  let trimmed := text.trim
  if trimmed.isEmpty then
    throw (.missingType (← get).name)
  else
    match TypeExpression.read? trimmed with
    | none => throw (.invalidType (String.ofList trimmed) (← get).name)
    | some type =>
        writeExtent type
        modify fun field => { field with typeName := type.name }
        modify fun field => { field with nullable := field.nullable || type.nullable }

/-- Writes a type and, if there is one, a default value. -/
def writeTypeAndDefault (text : Text) : Edit LineFault Field Unit := do
  let (type, defaultValue) ← text.splitDefault
  writeType type
  if defaultValue.isSome then
    modify fun field => { field with defaultValue }

/-- Writes one property. A key of no property is kept as metadata. -/
def writeProperty (key value : Text) : Edit LineFault Field Unit :=
  match property? key with
  | some .type => writeTypeAndDefault value
  | some .description => modify fun field => { field with description := value.unquote.nonBlank? }
  | some .defaultValue => do
      let defaultValue ← DefaultValue.read value
      modify fun field => { field with defaultValue := some defaultValue }
  | some .label => modify fun field => { field with label := value.unquote.nonBlank? }
  | some .nullable =>
      match value.truth? with
      | some nullable => modify fun field => { field with nullable }
      | none => throw (.notTruthValue (String.ofList value))
  | some .length => do
      let length ← value.readLength
      modify fun field => { field with length := some length }
  | some .options => do
      let options ← EnumValue.readOptions value
      modify fun field => { field with options := field.options ++ options }
  | none =>
      modify fun field => { field with
        metadata := field.metadata.set (String.ofList key) (String.ofList value.unquote) }

/-- Writes the attributes and the description of a line that starts with `[`. -/
def writeFrameworkLine (text : Text) : Edit LineFault Field Unit := do
  let (rest, attributes) ← asLineFault text.extractFramework
  let (rest, description) := rest.splitDescription
  rest.expectBlank
  modify fun field => { field with frameworkAttributes := field.frameworkAttributes ++ attributes }
  if description.isSome then
    modify fun field => { field with description }

/-- Writes the attributes and the description of a line that starts with `@`. -/
def writeSemanticLine (text : Text) : Edit LineFault Field Unit := do
  asLineFault text.checkBalance
  let annotated ← asLineFault text.splitSemantic
  annotated.before.expectBlank
  modify fun field => { field with
    semanticAttributes := field.semanticAttributes ++ annotated.attributes }
  if annotated.quoted.isSome then
    modify fun field => { field with description := annotated.quoted }

/-- Writes a property line into a field. -/
def writeLine (text : Text) : Edit LineFault Field Unit := do
  let trimmed := text.trim
  if trimmed.head? == some '[' then
    writeFrameworkLine trimmed
  else if trimmed.head? == some '@' then
    writeSemanticLine trimmed
  else if (← get).isEnum && (trimmed.cutAt ':').isNone then
    let option ← EnumValue.read trimmed
    modify fun field => { field with options := field.options ++ [option] }
  else
    asLineFault trimmed.checkBalance
    match trimmed.splitKeyValue? with
    | some (key, value) => writeProperty key value
    | none => throw (.unrecognizedProperty (String.ofList trimmed) (← get).name)

variable (field : Field)

theorem makes_writeExtent (type : TypeExpression) :
    Makes (writeExtent type) field
      (if equalIgnoringCase type.name "enum" then
        (readTypeOptions type).map fun options => { field with options, length := none }
      else if type.rest.isEmpty then
        (type.inner.mapM Text.readLength).map fun length => { field with length }
      else
        .error (.textAfterType (String.ofList type.rest) type.name)) := by
  apply makes_ite (fun _ => makes_read fun _ _ => makes_modify _ _)
  intro _
  apply makes_ite (fun _ => makes_read fun _ _ => makes_modify _ _)
  intro _
  exact makes_throw _ _

/-- The name of a type and its mark are written once its options or its length are read. -/
theorem makes_writeType (text : Text) : Makes (writeType text) field (field.setType text) := by
  unfold writeType setType
  apply makes_ite
  · intro _
    exact makes_throw _ _
  · intro _
    cases TypeExpression.read? text.trim with
    | none => exact makes_throw _ _
    | some type =>
        refine ((makes_writeExtent field type).write fun _ _ => makes_modify _ _).congr ?_
        dsimp only
        split
        · cases readTypeOptions type <;> rfl
        · split
          · cases type.inner.mapM Text.readLength <;> rfl
          · rfl

/-- A type leaves the default value alone. -/
theorem defaultValue_of_setType {text : Text} {typed : Field}
    (isTyped : field.setType text = .ok typed) : typed.defaultValue = field.defaultValue := by
  obtain ⟨_, _, ⟨_, _, _, rfl⟩ | ⟨_, _, _, _, rfl⟩⟩ := setType_eq_ok_iff.mp isTyped
  · rfl
  · rfl

/-- The default value is read before the type and written after it. -/
theorem makes_writeTypeAndDefault (text : Text) :
    Makes (writeTypeAndDefault text) field (field.setTypeAndDefault text) := by
  apply makes_read
  rintro ⟨type, defaultValue⟩ _
  apply (makes_writeType field type).write
  intro typed isTyped
  rw [← defaultValue_of_setType field isTyped]
  cases defaultValue with
  | none => exact makes_pure typed
  | some value => exact makes_modify _ typed

theorem makes_writeProperty (key value : Text) :
    Makes (writeProperty key value) field (field.setProperty key value) := by
  unfold writeProperty setProperty
  cases property? key with
  | none => exact makes_modify _ _
  | some property =>
      cases property with
      | type => exact makes_writeTypeAndDefault field value
      | description => exact makes_modify _ _
      | label => exact makes_modify _ _
      | nullable =>
          cases value.truth? with
          | none => exact makes_throw _ _
          | some nullable => exact makes_modify _ _
      | defaultValue => exact makes_read fun _ _ => makes_modify _ _
      | length => exact makes_read fun _ _ => makes_modify _ _
      | options => exact makes_read fun _ _ => makes_modify _ _

theorem makes_writeFrameworkLine (text : Text) :
    Makes (writeFrameworkLine text) field (field.addFrameworkLine text) := by
  apply makes_read
  rintro ⟨rest, attributes⟩ _
  dsimp only
  rcases rest.splitDescription with ⟨behind, description⟩
  apply makes_read
  intro _ _
  cases description <;> rfl

theorem makes_writeSemanticLine (text : Text) :
    Makes (writeSemanticLine text) field (field.addSemanticLine text) := by
  apply makes_read
  intro _ _
  apply makes_read
  intro annotated _
  apply makes_read
  intro _ _
  cases annotated.quoted <;> rfl

/-- A property line is written into a field as it refines the field. -/
theorem makes_writeLine (text : Text) : Makes (writeLine text) field (field.refine text) := by
  apply makes_ite (fun _ => makes_writeFrameworkLine field text.trim)
  intro _
  apply makes_ite (fun _ => makes_writeSemanticLine field text.trim)
  intro _
  apply makes_get
  apply makes_ite (fun _ => makes_read fun _ _ => makes_modify _ _)
  intro _
  apply makes_read
  intro _ _
  cases text.trim.splitKeyValue? with
  | none => exact makes_throw _ _
  | some property => exact makes_writeProperty field property.1 property.2

end Field

namespace Relation

/-! ## Relations -/

/-- Writes a property line into a relation. -/
def writeLine (text : Text) : Edit LineFault Relation Unit := do
  let (key, value) ← readProperty text
  let isKey := fun (name : String) => keysMatch key name.toList
  if isKey "from" then
    modify fun relation => { relation with fromField := value.unquote.nonBlank? }
  else if isKey "onDelete" then
    let action ← readAction value
    modify fun relation => { relation with onDelete := some action }
  else if isKey "onUpdate" then
    let action ← readAction value
    modify fun relation => { relation with onUpdate := some action }
  else if isKey "description" || isKey "desc" then
    modify fun relation => { relation with description := value.unquote.nonBlank? }
  else if isKey "name" then
    modify fun relation => { relation with name := String.ofList value.unquote }
  else
    throw (.unknownRelationProperty (String.ofList key))

/-- A property line is written into a relation as it refines the relation. -/
theorem makes_writeLine (relation : Relation) (text : Text) :
    Makes (writeLine text) relation (relation.refine text) := by
  apply makes_read
  rintro ⟨key, value⟩ _
  apply makes_ite (fun _ => makes_modify _ _)
  intro _
  apply makes_ite (fun _ => makes_read fun _ _ => makes_modify _ _)
  intro _
  apply makes_ite (fun _ => makes_read fun _ _ => makes_modify _ _)
  intro _
  apply makes_ite (fun _ => makes_modify _ _)
  intro _
  apply makes_ite (fun _ => makes_modify _ _)
  intro _
  exact makes_throw _ _

end Relation

namespace Index

/-! ## Indexes -/

/-- Generates the name of an index anew if it was a generated one. -/
def writeName (dialect : Dialect) (wasGenerated : Bool) : Edit LineFault Index Unit := do
  if wasGenerated then
    modify fun index => { index with name := index.generatedName dialect }

/-- Writes a property line into an index. Whether its name is a generated one is asked before
anything is written. -/
def writeLine (dialect : Dialect) (text : Text) : Edit LineFault Index Unit := do
  let (key, value) ← readProperty text
  let wasGenerated := (← get).name == (← get).generatedName dialect
  let isKey := fun (name : String) => keysMatch key name.toList
  if isKey "fields" then
    let fields ← ((value.pieces ',').mapM readField : Except LineFault (List String))
    modify fun index => { index with fields }
    writeName dialect wasGenerated
  else if isKey "unique" then
    match value.truth? with
    | some isUnique =>
        modify fun index => { index with isUnique }
        writeName dialect wasGenerated
    | none => throw (.notTruthValue (String.ofList value))
  else if isKey "description" || isKey "desc" then
    modify fun index => { index with description := value.unquote.nonBlank? }
  else if isKey "name" then
    modify fun index => { index with name := String.ofList value.unquote }
  else
    throw (.unknownIndexProperty (String.ofList key))

/-- After a change of fields or uniqueness the name is written, which cannot fail. -/
theorem makes_change (dialect : Dialect) (index : Index) (change : Index → Index) :
    Makes (do modify change; writeName dialect (index.name == index.generatedName dialect)) index
      (.ok ((change index).renamedFrom index dialect)) := by
  have renames : ∀ changed, Makes (writeName dialect (index.name == index.generatedName dialect))
      changed (.ok (changed.renamedFrom index dialect)) := by
    intro changed
    unfold writeName renamedFrom
    by_cases isGenerated : (index.name == index.generatedName dialect) = true
    · rw [if_pos isGenerated, if_pos isGenerated]
      exact makes_modify _ _
    · rw [if_neg isGenerated, if_neg isGenerated]
      exact makes_pure _
  have written : Makes
      (do modify change; writeName dialect (index.name == index.generatedName dialect)) index
      (Except.map (fun changed => changed.renamedFrom index dialect) (.ok (change index))) :=
    (makes_modify change index).write fun changed _ => renames changed
  exact written

/-- A property line is written into an index as it refines the index. -/
theorem makes_writeLine (dialect : Dialect) (index : Index) (text : Text) :
    Makes (writeLine dialect text) index (index.refine dialect text) := by
  apply makes_read
  rintro ⟨key, value⟩ _
  apply makes_get
  apply makes_get
  apply makes_ite
  · intro _
    apply makes_read
    intro fields _
    exact makes_change dialect index fun index => { index with fields }
  intro _
  apply makes_ite
  · intro _
    cases value.truth? with
    | none => exact makes_throw _ _
    | some isUnique => exact makes_change dialect index fun index => { index with isUnique }
  intro _
  apply makes_ite (fun _ => makes_modify _ _)
  intro _
  apply makes_ite (fun _ => makes_modify _ _)
  intro _
  exact makes_throw _ _

end Index

/-! ## Runs of property lines -/

/-- A property line of a field, a relation or an index is written as a whole or not at all. -/
theorem propertyLines_writeWhole :
    WritesWhole Field.writeLine Field.refine ∧
      WritesWhole Relation.writeLine Relation.refine ∧
      ∀ dialect, WritesWhole (Index.writeLine dialect) (Index.refine dialect) := by
  refine ⟨?_, ?_, ?_⟩
  · exact writesWhole_of_makes fun text field => field.makes_writeLine text
  · exact writesWhole_of_makes fun text relation => relation.makes_writeLine text
  · intro dialect
    exact writesWhole_of_makes fun text index => index.makes_writeLine dialect text

/-- Of three lines two fail, the second of them behind the attribute that it adds. -/
example :
    let lines := ["length: many".toList, "[key] rest".toList, "label: Number".toList]
    accepted Field.writeLine { name := "Id" } lines = ["label: Number".toList] ∧
      writeAll Field.writeLine { name := "Id" } lines = { name := "Id", label := "Number" } := by
  decide +kernel

end SchemaMarkup
