import SchemaMarkup.Schema.Field

/-!
# Attribute handlers

A handler gives one family of attribute names its meaning: it sets a flag of the
field or stores a value. A handler that rejects the arguments of an attribute says
why, and the field stays as it was.
-/

namespace SchemaMarkup

/-- When a computed value is stored. -/
inductive Trigger where
  | insert
  | update
deriving DecidableEq, Repr

/-- The meaning of a family of attribute names. -/
inductive Handler where
  | primaryKey
  | foreignKey
  /-- A flag that takes no arguments. -/
  | unique
  | indexed
  | excluded
  | jsonIgnored
  | maxLength
  | columnType
  | required
  | expression (trigger : Trigger)
deriving DecidableEq, Repr

/-- Why the arguments of an attribute are rejected. -/
inductive Rejection where
  | emptyTarget
  | missingLength
  | notPositive (argument : String)
  | missingColumnType
  | missingExpression
deriving DecidableEq, Repr

/-- The wording of a rejection. -/
def Rejection.message : Rejection -> String
  | .emptyTarget => "empty foreign key target"
  | .missingLength => "expected a length"
  | .notPositive argument => s!"'{argument}' is not a positive length"
  | .missingColumnType => "expected a column type"
  | .missingExpression => "expected an expression"

namespace Handler

/-- The attribute names that the handler answers to, in any case. -/
def names : Handler -> List String
  | .primaryKey => ["PK", "Key", "PrimaryKey", "primary"]
  | .foreignKey => foreignKeyNames
  | .unique => ["UQ", "Unique"]
  | .indexed => ["UI", "IDX", "Index"]
  | .excluded => ["NotMapped", "Ignore", "Exclude"]
  | .jsonIgnored => ["JsonIgnore"]
  | .maxLength => ["MaxLength", "StringLength"]
  | .columnType => ["Column", "ColumnType"]
  | .required => ["Required"]
  | .expression .insert => ["Insert", "InsertDefault", "OnInsert"]
  | .expression .update => ["Update", "UpdateDefault", "OnUpdate"]

/-- The name of the handler itself. -/
def name : Handler -> String
  | .primaryKey => "PrimaryKeyHandler"
  | .foreignKey => "ForeignKeyHandler"
  | .unique => "UQ"
  | .indexed => "UI"
  | .excluded => "NotMapped"
  | .jsonIgnored => "JsonIgnore"
  | .maxLength => "MaxLengthHandler"
  | .columnType => "ColumnTypeHandler"
  | .required => "RequiredHandler"
  | .expression .insert => "InsertExpression"
  | .expression .update => "UpdateExpression"

/-- Whether the handler answers to a name. -/
def answersTo (handler : Handler) (name : String) : Bool :=
  handler.names.any fun own => equalIgnoringCase own name

end Handler

namespace Attribute

/-- The unquoted first argument without a key. -/
def unquotedFirst? (call : Attribute) : Option String :=
  call.positional.head?.map fun argument => String.ofList (Text.unquote argument.toList)

/-- The first argument without a key, freed of backticks or quotes. -/
def expression? (call : Attribute) : Option String :=
  call.positional.head?.map fun argument =>
    String.ofList ((Text.unquoteExpression? argument.toList).getD (Text.unquote argument.toList))

end Attribute

namespace Field

/-- The field as a foreign key, to the target that the attribute names or to the one it had. -/
def applyForeignKey (field : Field) (call : Attribute) : Except Rejection Field :=
  let named := (call.named? "target").map fun target => String.ofList (Text.unquote target.toList)
  match call.unquotedFirst?.or named with
  | some target =>
      if target.isEmpty then
        .error .emptyTarget
      else
        .ok { field with flags := field.flags.add .foreignKey, referenceTarget := some target }
  | none => .ok { field with flags := field.flags.add .foreignKey }

/-- The field with the positive length that the attribute names. -/
def applyMaxLength (field : Field) (call : Attribute) : Except Rejection Field :=
  match call.positional.head? with
  | none => .error .missingLength
  | some argument =>
      match Numeral.read? (Text.unquote argument.toList) with
      | some length =>
          if length = 0 then .error (.notPositive argument)
          else .ok { field with maxLength := some length }
      | none => .error (.notPositive argument)

/-- The field with the column type that the attribute names. -/
def applyColumnType (field : Field) (call : Attribute) : Except Rejection Field :=
  match (call.named? "TypeName").or call.unquotedFirst? with
  | some columnType =>
      if columnType.isEmpty then .error .missingColumnType
      else .ok { field with columnType := some columnType }
  | none => .error .missingColumnType

/-- The field with the computed value that the attribute names. -/
def applyExpression (field : Field) (trigger : Trigger) (call : Attribute) :
    Except Rejection Field :=
  match call.expression?.filter (!·.isEmpty), trigger with
  | none, _ => .error .missingExpression
  | some expression, .insert => .ok { field with insertExpression := some expression }
  | some expression, .update => .ok { field with updateExpression := some expression }

end Field

namespace Handler

/-- The field with the meaning of an attribute applied. -/
def apply (handler : Handler) (field : Field) (call : Attribute) : Except Rejection Field :=
  match handler with
  | .primaryKey => .ok { field with flags := field.flags.add .primaryKey, nullable := false }
  | .required => .ok { field with flags := field.flags.add .required, nullable := false }
  | .unique => .ok { field with flags := field.flags.add .unique }
  | .indexed => .ok { field with flags := field.flags.add .indexed }
  | .excluded => .ok { field with flags := field.flags.add .excluded }
  | .jsonIgnored => .ok { field with flags := field.flags.add .jsonIgnored }
  | .foreignKey => field.applyForeignKey call
  | .maxLength => field.applyMaxLength call
  | .columnType => field.applyColumnType call
  | .expression trigger => field.applyExpression trigger call

end Handler

end SchemaMarkup
