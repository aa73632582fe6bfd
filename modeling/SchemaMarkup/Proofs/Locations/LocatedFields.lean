import SchemaMarkup.Grammar.Field
import SchemaMarkup.Proofs.Outcome

/-!
# Field lines with located errors

The grammar of a line says what is wrong with it and leaves it to the reader of the document to say
where. Here the grammars of values, properties and fields are given the location of their line, and
each of their errors is raised there, where it is found. Both ways lead to the same errors, since
`atLocation` is a monad morphism: it goes through a grammar down to the places where it fails.
-/

namespace SchemaMarkup

/-! ## Errors at a location -/

section Errors

variable {Value Result Item State : Type}

/-- Reports a fault in a piece of a line at the location of the line. -/
def atLine (location : Location) (read : Except SyntaxFault Value) : Except SchemaError Value :=
  read.mapError fun fault => .structural (.malformed fault) location

variable (location : Location)

theorem atLocation_asLineFault (read : Except SyntaxFault Value) :
    atLocation location (asLineFault read) = atLine location read := by
  cases read <;> rfl

@[simp] theorem atLocation_ok (value : Value) : atLocation location (.ok value) = .ok value := rfl

@[simp] theorem atLocation_pure (value : Value) :
    atLocation location (pure value) = pure value := rfl

@[simp] theorem atLocation_error (fault : LineFault) :
    atLocation location (.error fault : Except LineFault Value) =
      .error (.structural fault location) := rfl

@[simp] theorem atLocation_throw (fault : LineFault) :
    atLocation location (throw fault : Except LineFault Value) =
      throw (.structural fault location) := rfl

theorem atLocation_ite (condition : Prop) [Decidable condition]
    (first second : Except LineFault Value) :
    atLocation location (if condition then first else second) =
      if condition then atLocation location first else atLocation location second :=
  apply_ite ..

/-- Steps are located one by one. -/
theorem atLocation_bind (read : Except LineFault Value)
    (next : Value → Except LineFault Result) :
    atLocation location (read >>= next) =
      atLocation location read >>= fun value => atLocation location (next value) :=
  mapError_bind ..

theorem atLocation_exceptMap (change : Value → Result) (read : Except LineFault Value) :
    atLocation location (read.map change) = (atLocation location read).map change :=
  mapError_map ..

theorem atLocation_listMapM (read : Item → Except LineFault Value) (items : List Item) :
    atLocation location (items.mapM read) =
      items.mapM fun item => atLocation location (read item) := by
  induction items with
  | nil => rfl
  | cons item rest inductionHypothesis =>
      simp only [List.mapM_cons, atLocation_bind, inductionHypothesis, atLocation_pure]

theorem atLocation_optionMapM (read : Item → Except LineFault Value) (item : Option Item) :
    atLocation location (item.mapM read) =
      item.mapM fun item => atLocation location (read item) := by
  cases item with
  | none => rfl
  | some item => exact mapError_map (read item) some _

theorem atLocation_foldlM (step : State → Item → Except LineFault State) (items : List Item)
    (start : State) :
    atLocation location (items.foldlM step start) =
      items.foldlM (fun state item => atLocation location (step state item)) start := by
  induction items generalizing start with
  | nil => rfl
  | cons item rest inductionHypothesis =>
      simp only [List.foldlM_cons, atLocation_bind, inductionHypothesis]

end Errors

/-! ## Values -/

namespace EnumValue

/-- Reads an enumeration value from a line. -/
def readAt (location : Location) (text : Text) : Except SchemaError EnumValue := do
  let (body, description) := text.splitDescription
  atLine location body.checkBalance
  let annotated ← atLine location body.splitSemantic
  let (body, trailing) :=
    if description.isSome || annotated.quoted.isSome then (annotated.before, none)
    else annotated.before.takeTrailingQuoted
  let (head, value) :=
    match body.cutAt '=' with
    | some cut => (cut.before, cut.following.unquote.nonBlank?)
    | none => (body, none)
  match head.splitNameLabel? with
  | none => .error (.structural (.invalidEnumValue (String.ofList head.trim)) location)
  | some (name, label) =>
      let group := (annotated.attributes.find? (·.isNamed "group")).bind (·.positional.head?)
      .ok {
        name, label, value
        description := (description.or annotated.quoted).or trailing
        group := group.map fun argument => String.ofList (Text.unquote argument.toList) }

theorem readAt_eq (location : Location) (text : Text) :
    readAt location text = atLocation location (read text) := by
  simp only [readAt, read, atLocation_bind, atLocation_asLineFault]
  refine bind_congr fun _ => bind_congr fun annotated => ?_
  cases Text.cutAt '=' _ <;> dsimp only <;> cases Text.splitNameLabel? _ <;> rfl

/-- Reads the options of a field of type `enum(...)` from a line. -/
def readOptionsAt (location : Location) (text : Text) : Except SchemaError (List EnumValue) :=
  (text.pieces (if (text.cutAt '|').isSome then '|' else ',')).mapM (readAt location)

theorem readOptionsAt_eq (location : Location) (text : Text) :
    readOptionsAt location text = atLocation location (readOptions text) := by
  simp only [readOptionsAt, readOptions, atLocation_listMapM, funext (readAt_eq location)]

end EnumValue

/-! ## Properties -/

/-- Reads a line `key: value` or `key = value` of a document. -/
def readPropertyAt (location : Location) (text : Text) : Except SchemaError (Text × Text) := do
  atLine location text.checkBalance
  match text.trim.splitKeyValue? with
  | some property => .ok property
  | none => .error (.structural (.notKeyValue (String.ofList text.trim)) location)

theorem readPropertyAt_eq (location : Location) (text : Text) :
    readPropertyAt location text = atLocation location (readProperty text) := by
  simp only [readPropertyAt, readProperty, atLocation_bind, atLocation_asLineFault]
  refine bind_congr fun _ => ?_
  cases Text.splitKeyValue? _ <;> rfl

/-! ## Default values, lengths and attributes -/

/-- Reads a default value from a line. -/
def DefaultValue.readAt (location : Location) (text : Text) : Except SchemaError DefaultValue :=
  let trimmed := text.trim
  if trimmed.isEmpty then
    .error (.structural .missingDefault location)
  else
    match trimmed.unquoteExpression? with
    | some expression => .ok { value := String.ofList expression, isExpression := true }
    | none =>
        if trimmed.isEnclosedBy '"' then
          .ok {
            value := String.ofList (Text.unescapeQuotes trimmed.unquote)
            isExpression := false }
        else
          .ok { value := String.ofList trimmed, isExpression := trimmed.contains '(' }

theorem DefaultValue.readAt_eq (location : Location) (text : Text) :
    readAt location text = atLocation location (read text) := by
  simp only [readAt, read]
  split
  · rfl
  · cases Text.unquoteExpression? _ with
    | some expression => rfl
    | none => simp only [atLocation_ite, atLocation_ok]

namespace Text

/-- Takes the default value off a type in a line. -/
def splitDefaultAt (location : Location) (text : Text) :
    Except SchemaError (Text × Option DefaultValue) :=
  match text.cutAt '=' with
  | none => .ok (text, none)
  | some cut =>
      let typeName : Text := text.trimStart.takeWhile isNameCharacter
      if typeName.spells "enum" && (text.cutAt '|').isSome then
        .ok (text, none)
      else
        (DefaultValue.readAt location cut.following).map fun value => (cut.before, some value)

theorem splitDefaultAt_eq (location : Location) (text : Text) :
    splitDefaultAt location text = atLocation location text.splitDefault := by
  simp only [splitDefaultAt, splitDefault]
  cases Text.cutAt '=' _ with
  | none => rfl
  | some cut =>
      simp only [atLocation_ite, atLocation_ok, atLocation_exceptMap, DefaultValue.readAt_eq]

/-- Reads a length from a line. -/
def readLengthAt (location : Location) (text : Text) : Except SchemaError Length :=
  match Length.read? text.unquote with
  | some length => .ok length
  | none => .error (.structural (.invalidLength (String.ofList text.trim)) location)

theorem readLengthAt_eq (location : Location) (text : Text) :
    readLengthAt location text = atLocation location text.readLength := by
  simp only [readLengthAt, readLength]
  cases Length.read? _ <;> rfl

/-- Accepts blank text behind the attributes of a property line of a document. -/
def expectBlankAt (location : Location) (text : Text) : Except SchemaError Unit :=
  if text.trim.isEmpty then .ok ()
  else .error (.structural (.textAfterAttributes (String.ofList text.trim)) location)

theorem expectBlankAt_eq (location : Location) (text : Text) :
    expectBlankAt location text = atLocation location text.expectBlank := by
  simp only [expectBlankAt, expectBlank, atLocation_ite, atLocation_ok, atLocation_error]

end Text

/-! ## Types -/

/-- What is read as a type has a name. -/
theorem TypeExpression.name_ne_of_read? {text : Text} {type : TypeExpression}
    (isRead : read? text = some type) : type.name ≠ "" := by
  simp only [read?] at isRead
  split at isRead
  · contradiction
  · next nonempty =>
    obtain rfl := Option.some.inj isRead
    simpa using nonempty

namespace Field

/-- The options that stand in or behind a type `enum` of a line. -/
def readTypeOptionsAt (location : Location) (type : TypeExpression) :
    Except SchemaError (List EnumValue) :=
  match type.inner, type.rest with
  | some _, _ :: _ => .error (.structural (.textAfterOptions (String.ofList type.rest)) location)
  | some options, [] => EnumValue.readOptionsAt location options
  | none, rest => EnumValue.readOptionsAt location rest

theorem readTypeOptionsAt_eq (location : Location) (type : TypeExpression) :
    readTypeOptionsAt location type = atLocation location (readTypeOptions type) := by
  simp only [readTypeOptionsAt, readTypeOptions, EnumValue.readOptionsAt_eq]
  cases type.inner <;> cases type.rest <;> rfl

/-- The field with a type from a line. -/
def setTypeAt (location : Location) (field : Field) (text : Text) : Except SchemaError Field := do
  let trimmed := text.trim
  if trimmed.isEmpty then
    throw (.structural (.missingType field.name) location)
  match TypeExpression.read? trimmed with
  | none => throw (.structural (.invalidType (String.ofList trimmed) field.name) location)
  | some type =>
      let typed := { field with
        typeName := type.name
        nullable := field.nullable || type.nullable }
      if equalIgnoringCase type.name "enum" then
        let options ← readTypeOptionsAt location type
        return { typed with options, length := none }
      else if type.rest.isEmpty then
        let length ← type.inner.mapM (Text.readLengthAt location)
        return { typed with length }
      else
        throw (.structural (.textAfterType (String.ofList type.rest) type.name) location)

theorem setTypeAt_eq (location : Location) (field : Field) (text : Text) :
    setTypeAt location field text = atLocation location (field.setType text) := by
  simp only [setTypeAt, setType]
  split
  · rfl
  · cases TypeExpression.read? _ with
    | none => rfl
    | some type =>
        simp only [atLocation_ite, atLocation_bind, atLocation_pure, atLocation_throw,
          atLocation_optionMapM, readTypeOptionsAt_eq, funext (Text.readLengthAt_eq location)]

/-- The field with a type from a line and, if there is one, a default value. -/
def setTypeAndDefaultAt (location : Location) (field : Field) (text : Text) :
    Except SchemaError Field := do
  let (type, defaultValue) ← text.splitDefaultAt location
  let typed ← field.setTypeAt location type
  return { typed with defaultValue := defaultValue.or field.defaultValue }

theorem setTypeAndDefaultAt_eq (location : Location) (field : Field) (text : Text) :
    setTypeAndDefaultAt location field text =
      atLocation location (field.setTypeAndDefault text) := by
  simp only [setTypeAndDefaultAt, setTypeAndDefault, atLocation_bind, atLocation_pure,
    Text.splitDefaultAt_eq, setTypeAt_eq]

/-- A type that has been set is not empty. -/
theorem typeName_ne_of_setType {field typed : Field} {text : Text}
    (isSet : field.setType text = .ok typed) : typed.typeName ≠ "" := by
  simp only [setType] at isSet
  split at isSet
  · contradiction
  · split at isSet
    · contradiction
    · next type isType =>
      have named := TypeExpression.name_ne_of_read? isType
      split at isSet
      · simp only [bind_eq_ok_iff, pure_eq_ok_iff] at isSet
        obtain ⟨options, _, rfl⟩ := isSet
        exact named
      · split at isSet
        · simp only [bind_eq_ok_iff, pure_eq_ok_iff] at isSet
          obtain ⟨length, _, rfl⟩ := isSet
          exact named
        · contradiction

theorem typeName_ne_of_setTypeAndDefault {field typed : Field} {text : Text}
    (isSet : field.setTypeAndDefault text = .ok typed) : typed.typeName ≠ "" := by
  simp only [setTypeAndDefault, bind_eq_ok_iff, pure_eq_ok_iff] at isSet
  obtain ⟨_, _, withoutDefault, isTyped, rfl⟩ := isSet
  exact (typeName_ne_of_setType isTyped : withoutDefault.typeName ≠ "")

/-- Refuses a field to which no line gave a type, at the line that declares the field. -/
def checkTypedAt (field : Field) (location : Location) : Except SchemaError Unit :=
  if field.typeName.isEmpty then .error (.structural (.missingType field.name) location) else .ok ()

theorem checkTypedAt_eq (field : Field) (location : Location) :
    field.checkTypedAt location = atLocation location field.checkTyped := by
  simp only [checkTypedAt, checkTyped, atLocation_ite, atLocation_ok, atLocation_error]

/-- Reads a field line of a document. A line with a type is checked to have one at once. -/
def readAt (location : Location) (text : Text) : Except SchemaError (Field × FieldForm) := do
  let (body, frameworkAttributes) ← atLine location text.extractFramework
  let (body, description) := body.splitDescription
  atLine location body.checkBalance
  let annotated ← atLine location body.splitSemantic
  let description := description.or annotated.quoted
  let declare := fun (name : String) (label : Option String) => ({
    name, label, location, frameworkAttributes
    semanticAttributes := annotated.attributes } : Field)
  match annotated.before.cutAt ':' with
  | some cut =>
      match cut.before.splitNameLabel? with
      | none => throw (.structural (.invalidFieldName (String.ofList cut.before.trim)) location)
      | some (name, label) =>
          let (type, quoted) := cut.following.splitTrailingDescription
          let field ← (declare name label).setTypeAndDefaultAt location type
          field.checkTypedAt location
          return ({ field with description := description.or quoted }, .simple)
  | none =>
      let (head, quoted) := annotated.before.takeTrailingQuoted
      match head.splitNameLabel? with
      | none => throw (.structural (.notAField (String.ofList text.trim)) location)
      | some (name, label) =>
          return ({ declare name label with description := description.or quoted }, .extended)

/-- A check for a type that has just been set finds one. -/
theorem setTypeAndDefault_checkTypedAt (location : Location) (field : Field) (text : Text)
    {Result : Type} (next : Field → Except SchemaError Result) :
    (atLocation location (field.setTypeAndDefault text) >>= fun typed => do
        typed.checkTypedAt location
        next typed) =
      atLocation location (field.setTypeAndDefault text) >>= next := by
  cases isSet : field.setTypeAndDefault text with
  | error fault => rfl
  | ok typed =>
      have named : typed.checkTypedAt location = .ok () := by
        simp [checkTypedAt, typeName_ne_of_setTypeAndDefault isSet]
      calc (typed.checkTypedAt location >>= fun _ => next typed)
          = (.ok () >>= fun _ => next typed) := by rw [named]
        _ = next typed := rfl

theorem readAt_eq (location : Location) (text : Text) :
    readAt location text = atLocation location (read location text) := by
  simp only [readAt, read, atLocation_bind, atLocation_asLineFault]
  refine bind_congr fun _ => bind_congr fun _ => bind_congr fun annotated => ?_
  cases annotated.before.cutAt ':' with
  | none => dsimp only; cases Text.splitNameLabel? _ <;> rfl
  | some cut =>
      dsimp only
      cases cut.before.splitNameLabel? with
      | none => rfl
      | some named =>
          simp only [atLocation_bind, atLocation_pure, setTypeAndDefaultAt_eq,
            setTypeAndDefault_checkTypedAt]

/-- The field with one property set from a line. -/
def setPropertyAt (location : Location) (field : Field) (key value : Text) :
    Except SchemaError Field :=
  match property? key with
  | some .type => field.setTypeAndDefaultAt location value
  | some .description => .ok { field with description := value.unquote.nonBlank? }
  | some .defaultValue => do
      let defaultValue ← DefaultValue.readAt location value
      return { field with defaultValue := some defaultValue }
  | some .label => .ok { field with label := value.unquote.nonBlank? }
  | some .nullable =>
      match value.truth? with
      | some nullable => .ok { field with nullable }
      | none => .error (.structural (.notTruthValue (String.ofList value)) location)
  | some .length => do
      let length ← value.readLengthAt location
      return { field with length := some length }
  | some .options => do
      let options ← EnumValue.readOptionsAt location value
      return { field with options := field.options ++ options }
  | none =>
      .ok { field with
        metadata := field.metadata.set (String.ofList key) (String.ofList value.unquote) }

theorem setPropertyAt_eq (location : Location) (field : Field) (key value : Text) :
    setPropertyAt location field key value = atLocation location (field.setProperty key value) := by
  simp only [setPropertyAt, setProperty]
  cases property? key with
  | none => rfl
  | some property =>
      cases property with
      | type => exact setTypeAndDefaultAt_eq location field value
      | defaultValue => simp only [atLocation_bind, atLocation_pure, DefaultValue.readAt_eq]
      | nullable => cases Text.truth? _ <;> rfl
      | length => simp only [atLocation_bind, atLocation_pure, Text.readLengthAt_eq]
      | options => simp only [atLocation_bind, atLocation_pure, EnumValue.readOptionsAt_eq]
      | description | label => rfl

/-- The field with more framework attributes, read from a line that starts with `[`. -/
def addFrameworkLineAt (location : Location) (field : Field) (text : Text) :
    Except SchemaError Field := do
  let (rest, attributes) ← atLine location text.extractFramework
  let (rest, description) := rest.splitDescription
  rest.expectBlankAt location
  return { field with
    frameworkAttributes := field.frameworkAttributes ++ attributes
    description := description.or field.description }

/-- The field with more semantic attributes, read from a line that starts with `@`. -/
def addSemanticLineAt (location : Location) (field : Field) (text : Text) :
    Except SchemaError Field := do
  atLine location text.checkBalance
  let annotated ← atLine location text.splitSemantic
  annotated.before.expectBlankAt location
  return { field with
    semanticAttributes := field.semanticAttributes ++ annotated.attributes
    description := annotated.quoted.or field.description }

/-- The field refined by a property line of a document. -/
def refineAt (location : Location) (field : Field) (text : Text) : Except SchemaError Field :=
  let trimmed := text.trim
  if trimmed.head? == some '[' then
    field.addFrameworkLineAt location trimmed
  else if trimmed.head? == some '@' then
    field.addSemanticLineAt location trimmed
  else if field.isEnum && (trimmed.cutAt ':').isNone then do
    let option ← EnumValue.readAt location trimmed
    return { field with options := field.options ++ [option] }
  else do
    atLine location trimmed.checkBalance
    match trimmed.splitKeyValue? with
    | some (key, value) => field.setPropertyAt location key value
    | none =>
        throw (.structural (.unrecognizedProperty (String.ofList trimmed) field.name) location)

theorem refineAt_eq (location : Location) (field : Field) (text : Text) :
    refineAt location field text = atLocation location (field.refine text) := by
  have framework (text : Text) : field.addFrameworkLineAt location text =
      atLocation location (field.addFrameworkLine text) := by
    simp only [addFrameworkLineAt, addFrameworkLine, atLocation_bind, atLocation_pure,
      atLocation_asLineFault, Text.expectBlankAt_eq]
  have semantic (text : Text) : field.addSemanticLineAt location text =
      atLocation location (field.addSemanticLine text) := by
    simp only [addSemanticLineAt, addSemanticLine, atLocation_bind, atLocation_pure,
      atLocation_asLineFault, Text.expectBlankAt_eq]
  simp only [refineAt, refine, atLocation_ite, atLocation_bind, atLocation_pure,
    atLocation_asLineFault, framework, semantic, EnumValue.readAt_eq]
  cases Text.splitKeyValue? _ with
  | none => rfl
  | some property => simp only [setPropertyAt_eq]

end Field

end SchemaMarkup
