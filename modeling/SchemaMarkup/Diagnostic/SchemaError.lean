import SchemaMarkup.Diagnostic.Basic
import SchemaMarkup.Schema.Kind
import SchemaMarkup.Text.Balance

/-!
# Errors that end a compilation

The grammar of one line fails with a `LineFault`, which says what is wrong and not
where: the reader of a document adds the line's location once, and no error comes to
stand elsewhere by that (`Document.readAt_eq`). A `SchemaError` is a located fault of
a line or of the document as a whole. All wording is here.
-/

namespace SchemaMarkup

/-- Why a line fits no form of the markup. -/
inductive LineFault where
  /-- A quote, a bracket or an attribute is malformed. -/
  | malformed (fault : SyntaxFault)
  | invalidEntityName (text : String)
  | invalidParentName (text : String)
  | unknownKindMark (word : String)
  /-- A kind mark in a dialect that has none. -/
  | unsupportedKindMark (entity : String)
  | invalidFieldName (text : String)
  | notAField (text : String)
  | unrecognizedProperty (text field : String)
  | notTruthValue (text : String)
  | textAfterAttributes (text : String)
  | missingType (field : String)
  | missingDefault
  | invalidType (text field : String)
  | textAfterOptions (text : String)
  | textAfterType (text typeName : String)
  | invalidLength (text : String)
  | invalidEnumValue (text : String)
  | unexpectedRelationArgument (text : String)
  | undirectedRelation (directive : String)
  | invalidRelationTarget (text : String)
  | unknownAction (text : String)
  | relationWithoutTarget
  | textAfterRelation (line : String)
  | unknownRelationProperty (key : String)
  | unknownIndexProperty (key : String)
  | unknownEnumValueProperty (key : String)
  | notKeyValue (text : String)
  | invalidIndexField (text : String)
  | indexWithoutFields
  | notARelation (text : String)
  /-- A relation or index on an interface whose dialect allows none. -/
  | constrainedInterface (interface : String) (dialect : Dialect)
  /-- A nested line without an item to belong to. -/
  | orphan (text : String)
deriving DecidableEq, Repr

namespace LineFault

/-- The code by which the fault is reported. -/
def code : LineFault -> Code
  | .malformed (.unexpectedText _) => .structuralParseError
  | .malformed _ => .unterminatedDelimiter
  | .missingType _ => .missingType
  | .invalidLength _ => .invalidLength
  | _ => .structuralParseError

/-- The wording of the fault. -/
def message : LineFault -> String
  | .malformed fault => fault.message
  | .invalidEntityName text => s!"'{text}' is not a valid entity name"
  | .invalidParentName text => s!"'{text}' is not a valid inherited entity name"
  | .unknownKindMark word => s!"unknown entity kind marker '::{word}'"
  | .unsupportedKindMark entity =>
      s!"kind markers are not supported in the legacy dialect (header '{entity}')"
  | .invalidFieldName text => s!"'{text}' is not a valid field name"
  | .notAField text => s!"expected 'Name: Type', found '{text}'"
  | .unrecognizedProperty text field => s!"unrecognized property line '{text}' under field '{field}'"
  | .notTruthValue text => s!"'{text}' is not a boolean"
  | .textAfterAttributes text => s!"unexpected '{text}' after attributes"
  | .missingType field => s!"field '{field}' has no type"
  | .missingDefault => "missing default value after '='"
  | .invalidType text field => s!"'{text}' is not a valid type for field '{field}'"
  | .textAfterOptions text => s!"unexpected '{text}' after enum options"
  | .textAfterType text typeName => s!"unexpected '{text}' after type '{typeName}'"
  | .invalidLength text => s!"'{text}' is not a valid length"
  | .invalidEnumValue text => s!"'{text}' is not a valid enum value"
  | .unexpectedRelationArgument text => s!"unexpected relation argument '{text}'"
  | .undirectedRelation directive => s!"relation '{directive}' has no '->Target' or '<-Target'"
  | .invalidRelationTarget text => s!"'{text}' is not a valid relation target"
  | .unknownAction text => s!"unknown referential action '{text}'"
  | .relationWithoutTarget => "relation line has no target"
  | .textAfterRelation line => s!"unexpected text in relation line '{line}'"
  | .unknownRelationProperty key => s!"unknown relation property '{key}'"
  | .unknownIndexProperty key => s!"unknown index property '{key}'"
  | .unknownEnumValueProperty key => s!"unknown enum value property '{key}'"
  | .notKeyValue text => s!"expected 'key: value', found '{text}'"
  | .invalidIndexField text => s!"'{text}' is not a valid field name in an index"
  | .indexWithoutFields => "index declares no fields"
  | .notARelation text => s!"expected '>Target' or '<Target', found '{text}'"
  | .constrainedInterface interface dialect =>
      s!"interface '{interface}' cannot declare relations or indexes in the {dialect.name} dialect"
  | .orphan text => s!"nested line '{text}' has no parent item"

end LineFault

/-- An inheritance that no dialect allows. -/
inductive InheritanceFault where
  | enumerationInherits (enumeration parent : String)
  | interfaceFromModel (interface model : String)
  | fromEnumeration (entity enumeration : String)
deriving DecidableEq, Repr

/-- The wording of the fault. -/
def InheritanceFault.message : InheritanceFault -> String
  | .enumerationInherits enumeration parent => s!"enum '{enumeration}' cannot inherit from '{parent}'"
  | .interfaceFromModel interface model =>
      s!"interface '{interface}' cannot inherit from model '{model}'"
  | .fromEnumeration entity enumeration => s!"'{entity}' cannot inherit from enum '{enumeration}'"

/-- What ends the compilation of a document. -/
inductive SchemaError where
  /-- A line fits no form of the markup. -/
  | structural (fault : LineFault) (location : Location)
  /-- An inherited name belongs to no entity. -/
  | unknownReference (entity name : String) (location : Location)
  | invalidInheritance (fault : InheritanceFault) (location : Location)
  | duplicateEntity (name : String) (location first : Location)
  | duplicateField (entity field : String) (location : Location)
  /-- Two entities are marked as the default one. -/
  | duplicateDefaultEntity (first second : String) (location : Location)
deriving DecidableEq, Repr

namespace SchemaError

/-- The line that the error is about. -/
def location : SchemaError -> Location
  | .structural _ location => location
  | .unknownReference _ _ location => location
  | .invalidInheritance _ location => location
  | .duplicateEntity _ location _ => location
  | .duplicateField _ _ location => location
  | .duplicateDefaultEntity _ _ location => location

/-- The code by which the error is reported. -/
def code : SchemaError -> Code
  | .structural fault _ => fault.code
  | .unknownReference .. => .unknownReference
  | .invalidInheritance .. => .invalidInheritance
  | .duplicateEntity .. => .duplicateEntity
  | .duplicateField .. => .duplicateField
  | .duplicateDefaultEntity .. => .duplicateDefaultEntity

/-- The wording of the error after its line number. -/
def detail : SchemaError -> String
  | .structural fault _ => fault.message
  | .unknownReference entity name _ => s!"'{entity}' inherits from unknown entity '{name}'"
  | .invalidInheritance fault _ => fault.message
  | .duplicateEntity name _ _ => s!"entity '{name}' is declared more than once"
  | .duplicateField entity field _ => s!"field '{field}' is declared more than once on '{entity}'"
  | .duplicateDefaultEntity first second _ =>
      s!"'{second}' is marked @default but '{first}' already is"

/-- The error as one line of text. -/
def message (error : SchemaError) : String :=
  s!"line {error.location.line}: {error.detail}"

/-- The wording of the error as a finding, which names the repeated thing first. -/
def title : SchemaError -> String
  | .duplicateEntity name _ _ => s!"Entity '{name}' is declared more than once"
  | .duplicateField entity field _ => s!"Field '{field}' is declared more than once on '{entity}'"
  | error => error.detail

/-- The error as a finding. A repeated entity points back at its first declaration. -/
def diagnostic (error : SchemaError) : Diagnostic where
  severity := .error
  code := error.code
  message := error.title
  location := error.location
  related :=
    match error with
    | .duplicateEntity _ _ first => [(first, "first declared here")]
    | _ => []

end SchemaError

/-- Reports the fault of a line at its location. -/
def atLocation {α : Type} (location : Location) (read : Except LineFault α) : Except SchemaError α :=
  read.mapError fun fault => .structural fault location

/-- Reports a fault in a piece of a line as a fault of the line. -/
def asLineFault {α : Type} (read : Except SyntaxFault α) : Except LineFault α :=
  read.mapError .malformed

end SchemaMarkup
