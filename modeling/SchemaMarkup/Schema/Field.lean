import SchemaMarkup.Diagnostic.Location
import SchemaMarkup.Schema.Attribute
import SchemaMarkup.Schema.Length

/-!
# Fields

A field is what a line of a model declares, together with what classification
finds in its attributes: the flags, the reference target, the storage details.
-/

namespace SchemaMarkup

/-- Free `key: value` pairs in the order in which their keys first appeared. -/
structure Metadata where
  entries : List (String × String) := []
deriving DecidableEq, Repr

namespace Metadata

/-- Sets the value under a key. A key that is there keeps its place. -/
def set (metadata : Metadata) (key value : String) : Metadata where
  entries :=
    if metadata.entries.any fun entry => entry.1 == key then
      metadata.entries.map fun entry => if entry.1 == key then (key, value) else entry
    else
      metadata.entries ++ [(key, value)]

end Metadata

/-- The description with one more paragraph, unless the text is blank. -/
def appendParagraph (description : Option String) (text : Text) : Option String :=
  match text.nonBlank?, description with
  | none, _ => description
  | some paragraph, none => some paragraph
  | some paragraph, some earlier => some (earlier ++ "\n" ++ paragraph)

/-- The value that a field takes when none is given. -/
structure DefaultValue where
  value : String
  /-- Expressions are evaluated where the data is stored; other values are stored as they are. -/
  isExpression : Bool
deriving DecidableEq, Repr

/-- A value of an enumeration, or an option of a field of type `enum(...)`. -/
structure EnumValue where
  name : String
  label : Option String := none
  value : Option String := none
  description : Option String := none
  group : Option String := none
deriving DecidableEq, Repr

/-- A classified property of a field. -/
inductive FieldFlag where
  | primaryKey
  | foreignKey
  | unique
  | indexed
  | required
  /-- Left out of generated code. -/
  | excluded
  /-- Left out of serialized data. -/
  | jsonIgnored
deriving DecidableEq, Repr

/-- Every flag, in the order in which flags are listed. -/
def FieldFlag.all : List FieldFlag :=
  [.primaryKey, .foreignKey, .unique, .indexed, .required, .excluded, .jsonIgnored]

/-- The name under which a set flag is listed. -/
def FieldFlag.name : FieldFlag -> String
  | .primaryKey => "PRIMARY_KEY"
  | .foreignKey => "FOREIGN_KEY"
  | .unique => "UNIQUE"
  | .indexed => "INDEXED"
  | .required => "REQUIRED"
  | .excluded => "EXCLUDED"
  | .jsonIgnored => "JSON_IGNORE"

/-- A set of flags. -/
structure FieldFlags where
  primaryKey : Bool := false
  foreignKey : Bool := false
  unique : Bool := false
  indexed : Bool := false
  required : Bool := false
  excluded : Bool := false
  jsonIgnored : Bool := false
deriving DecidableEq, Repr

namespace FieldFlags

/-- Whether a flag is set. -/
def has (flags : FieldFlags) : FieldFlag -> Bool
  | .primaryKey => flags.primaryKey
  | .foreignKey => flags.foreignKey
  | .unique => flags.unique
  | .indexed => flags.indexed
  | .required => flags.required
  | .excluded => flags.excluded
  | .jsonIgnored => flags.jsonIgnored

/-- The flags with one more set. -/
def add (flags : FieldFlags) : FieldFlag -> FieldFlags
  | .primaryKey => { flags with primaryKey := true }
  | .foreignKey => { flags with foreignKey := true }
  | .unique => { flags with unique := true }
  | .indexed => { flags with indexed := true }
  | .required => { flags with required := true }
  | .excluded => { flags with excluded := true }
  | .jsonIgnored => { flags with jsonIgnored := true }

/-- Adding a flag sets it and leaves the others alone. -/
@[simp] theorem has_add (flags : FieldFlags) (added asked : FieldFlag) :
    (flags.add added).has asked = (flags.has asked || added == asked) := by
  cases added <;> cases asked <;> simp [add, has]

/-- The flags that are set, in listing order. -/
def toList (flags : FieldFlags) : List FieldFlag :=
  FieldFlag.all.filter flags.has

end FieldFlags

/-- A field of a model or interface. -/
structure Field where
  name : String
  label : Option String := none
  /-- The type as written: `string`, `guid`, `enum` or the name of an entity. -/
  typeName : String := ""
  length : Option Length := none
  nullable : Bool := false
  defaultValue : Option DefaultValue := none
  /-- The options of an `enum(...)` type, in order. -/
  options : List EnumValue := []
  flags : FieldFlags := {}
  referenceTarget : Option String := none
  maxLength : Option UInt32 := none
  columnType : Option String := none
  insertExpression : Option String := none
  updateExpression : Option String := none
  semanticAttributes : List Attribute := []
  frameworkAttributes : List Attribute := []
  /-- The attributes that classification left to generators. -/
  unrecognizedAttributes : List Attribute := []
  description : Option String := none
  metadata : Metadata := {}
  /-- The name of the entity that declares the field. -/
  declaredIn : String := ""
  location : Location := .unknown
deriving DecidableEq, Repr

/-- The attribute names that mark a field as a foreign key. -/
def foreignKeyNames : List String :=
  ["fk", "foreignkey", "reference", "ref"]

namespace Field

/-- Every attribute of the field, those in square brackets first. -/
def attributes (field : Field) : List Attribute :=
  field.frameworkAttributes ++ field.semanticAttributes

/-- Whether some attribute of the field carries the name. -/
def hasAttribute (field : Field) (name : String) : Bool :=
  field.attributes.any fun call => call.isNamed name

/-- Whether an attribute says that the field is a foreign key. -/
def hasExplicitForeignKey (field : Field) : Bool :=
  foreignKeyNames.any field.hasAttribute

/-- Whether the type of the field is a list of options. -/
def isEnum (field : Field) : Bool :=
  equalIgnoringCase field.typeName "enum"

end Field

end SchemaMarkup
