import SchemaMarkup.Grammar.EnumValue
import SchemaMarkup.Grammar.Property
import SchemaMarkup.Grammar.TypeExpression

/-!
# Field lines

    Name(Label): Type(length)? = default @attribute(...) [Framework(...)] #description

A line is taken apart from the outside in. Framework attributes go first, as their
arguments may hold any other sign; then the description, the semantic attributes
and the default value; what is left is the type. A line without a type declares
the name alone, and the property lines under it supply the rest.
-/

namespace SchemaMarkup

/-- Whether a field line carries its type. -/
inductive FieldForm where
  /-- `Name: Type` and more. -/
  | simple
  /-- A name, to be followed by property lines. -/
  | extended
deriving DecidableEq, Repr

/-- The name under which the form is reported. -/
def FieldForm.name : FieldForm -> String
  | .simple => "simple"
  | .extended => "extended"

namespace DefaultValue

/-- Reads a default value: an expression in backticks, a quoted string, or plain text, which
is an expression if it holds a parenthesis. -/
def read (text : Text) : Except LineFault DefaultValue :=
  let trimmed := text.trim
  if trimmed.isEmpty then
    .error .missingDefault
  else
    match trimmed.unquoteExpression? with
    | some expression => .ok { value := String.ofList expression, isExpression := true }
    | none =>
        if trimmed.isEnclosedBy '"' then
          .ok {
            value := String.ofList (Text.unescapeQuotes trimmed.unquote)
            isExpression := false }
        else
          .ok { value := String.ofList trimmed, isExpression := trimmed.contains '(' }

end DefaultValue

namespace Text

/-- Takes the default value off a type. The signs in a list of options such as
`enum A=1|B=2` are not taken for one. -/
def splitDefault (text : Text) : Except LineFault (Text × Option DefaultValue) :=
  match text.cutAt '=' with
  | none => .ok (text, none)
  | some cut =>
      let typeName : Text := text.trimStart.takeWhile isNameCharacter
      if typeName.spells "enum" && (text.cutAt '|').isSome then
        .ok (text, none)
      else
        (DefaultValue.read cut.following).map fun value => (cut.before, some value)

/-- Takes a trailing quoted string off a type, unless it is all there is or the default value. -/
def splitTrailingDescription (text : Text) : Text × Option String :=
  let (rest, quoted) := text.takeTrailingQuoted
  if quoted.isSome && (rest.trimEnd.getLast? == some '=' || rest.trim.isEmpty) then
    (text, none)
  else
    (rest, quoted)

/-- Reads a length, which may be quoted. -/
def readLength (text : Text) : Except LineFault Length :=
  match Length.read? text.unquote with
  | some length => .ok length
  | none => .error (.invalidLength (String.ofList text.trim))

/-- Accepts blank text behind the attributes of a property line. -/
def expectBlank (text : Text) : Except LineFault Unit :=
  if text.trim.isEmpty then .ok ()
  else .error (.textAfterAttributes (String.ofList text.trim))

end Text

namespace Field

/-- The options that stand in or behind a type `enum`. -/
def readTypeOptions (type : TypeExpression) : Except LineFault (List EnumValue) :=
  match type.inner, type.rest with
  | some _, _ :: _ => .error (.textAfterOptions (String.ofList type.rest))
  | some options, [] => EnumValue.readOptions options
  | none, rest => EnumValue.readOptions rest

/-- The field with a type. A type `enum` brings its options, any other its length. -/
def setType (field : Field) (text : Text) : Except LineFault Field := do
  let trimmed := text.trim
  if trimmed.isEmpty then
    throw (.missingType field.name)
  match TypeExpression.read? trimmed with
  | none => throw (.invalidType (String.ofList trimmed) field.name)
  | some type =>
      let typed := { field with
        typeName := type.name
        nullable := field.nullable || type.nullable }
      if equalIgnoringCase type.name "enum" then
        let options <- readTypeOptions type
        return { typed with options, length := none }
      else if type.rest.isEmpty then
        let length <- type.inner.mapM Text.readLength
        return { typed with length }
      else
        throw (.textAfterType (String.ofList type.rest) type.name)

/-- The field with a type and, if there is one, a default value. -/
def setTypeAndDefault (field : Field) (text : Text) : Except LineFault Field := do
  let (type, defaultValue) <- text.splitDefault
  let typed <- field.setType type
  return { typed with defaultValue := defaultValue.or field.defaultValue }

/-- Reads a field line. -/
def read (location : Location) (text : Text) : Except LineFault (Field × FieldForm) := do
  let (body, frameworkAttributes) <- asLineFault text.extractFramework
  let (body, description) := body.splitDescription
  asLineFault body.checkBalance
  let annotated <- asLineFault body.splitSemantic
  let description := description.or annotated.quoted
  let declare := fun (name : String) (label : Option String) => ({
    name, label, location, frameworkAttributes
    semanticAttributes := annotated.attributes } : Field)
  match annotated.before.cutAt ':' with
  | some cut =>
      match cut.before.splitNameLabel? with
      | none => throw (.invalidFieldName (String.ofList cut.before.trim))
      | some (name, label) =>
          let (type, quoted) := cut.following.splitTrailingDescription
          let field <- (declare name label).setTypeAndDefault type
          return ({ field with description := description.or quoted }, .simple)
  | none =>
      let (head, quoted) := annotated.before.takeTrailingQuoted
      match head.splitNameLabel? with
      | none => throw (.notAField (String.ofList text.trim))
      | some (name, label) =>
          return ({ declare name label with description := description.or quoted }, .extended)

/-- The properties of a field that a `key: value` line can set. -/
inductive Property where
  | type
  | description
  | defaultValue
  | label
  | nullable
  | length
  | options
deriving DecidableEq, Repr

/-- The keys of the properties. -/
def propertyKeys : List (String × Property) :=
  [("type", .type), ("description", .description), ("desc", .description),
   ("default", .defaultValue), ("label", .label), ("nullable", .nullable),
   ("length", .length), ("values", .options), ("options", .options)]

/-- The property that a key sets. -/
def property? (key : Text) : Option Property :=
  (propertyKeys.find? fun entry => keysMatch entry.1.toList key).map Prod.snd

/-- The field with one property set. A key of no property is kept as metadata. -/
def setProperty (field : Field) (key value : Text) : Except LineFault Field :=
  match property? key with
  | some .type => field.setTypeAndDefault value
  | some .description => .ok { field with description := value.unquote.nonBlank? }
  | some .defaultValue => do
      let defaultValue <- DefaultValue.read value
      return { field with defaultValue := some defaultValue }
  | some .label => .ok { field with label := value.unquote.nonBlank? }
  | some .nullable =>
      match value.truth? with
      | some nullable => .ok { field with nullable }
      | none => .error (.notTruthValue (String.ofList value))
  | some .length => do
      let length <- value.readLength
      return { field with length := some length }
  | some .options => do
      let options <- EnumValue.readOptions value
      return { field with options := field.options ++ options }
  | none =>
      .ok { field with
        metadata := field.metadata.set (String.ofList key) (String.ofList value.unquote) }

/-- The field with more framework attributes, read from a line that starts with `[`. -/
def addFrameworkLine (field : Field) (text : Text) : Except LineFault Field := do
  let (rest, attributes) <- asLineFault text.extractFramework
  let (rest, description) := rest.splitDescription
  rest.expectBlank
  return { field with
    frameworkAttributes := field.frameworkAttributes ++ attributes
    description := description.or field.description }

/-- The field with more semantic attributes, read from a line that starts with `@`. -/
def addSemanticLine (field : Field) (text : Text) : Except LineFault Field := do
  asLineFault text.checkBalance
  let annotated <- asLineFault text.splitSemantic
  annotated.before.expectBlank
  return { field with
    semanticAttributes := field.semanticAttributes ++ annotated.attributes
    description := annotated.quoted.or field.description }

/-- The field refined by a property line: attributes, an option of a type `enum`, or a key
and its value. -/
def refine (field : Field) (text : Text) : Except LineFault Field :=
  let trimmed := text.trim
  if trimmed.head? == some '[' then
    field.addFrameworkLine trimmed
  else if trimmed.head? == some '@' then
    field.addSemanticLine trimmed
  else if field.isEnum && (trimmed.cutAt ':').isNone then do
    let option <- EnumValue.read trimmed
    return { field with options := field.options ++ [option] }
  else do
    asLineFault trimmed.checkBalance
    match trimmed.splitKeyValue? with
    | some (key, value) => field.setProperty key value
    | none => throw (.unrecognizedProperty (String.ofList trimmed) field.name)

/-- Refuses a field to which no line gave a type. -/
def checkTyped (field : Field) : Except LineFault Unit :=
  if field.typeName.isEmpty then .error (.missingType field.name) else .ok ()

end Field

end SchemaMarkup
