/-!
# Dialects and kinds

The vocabulary that every stage shares: the two surface dialects of the markup and
the kinds of entity that a document declares.
-/

namespace SchemaMarkup

/-- The surface form that a document is written in. -/
inductive Dialect where
  /-- `## Name` blocks, with `::interface` and `::enum` marks in their headers. -/
  | current
  /-- `# Name` or `## Name` blocks, with interfaces named `IName`. -/
  | legacy
deriving DecidableEq, Repr

/-- The name under which the dialect is selected and reported. -/
def Dialect.name : Dialect -> String
  | .current => "current"
  | .legacy => "legacy"

/-- What a block declares. -/
inductive EntityKind where
  | model
  | interface
  | enumeration
deriving DecidableEq, Repr

/-- The word for the kind in summaries. -/
def EntityKind.name : EntityKind -> String
  | .model => "model"
  | .interface => "interface"
  | .enumeration => "enum"

/-- Models carry stored data; interfaces are sets of fields to inherit. -/
inductive ModelKind where
  | model
  | interface
deriving DecidableEq, Repr

/-- The kind of entity that a model or interface is. -/
def ModelKind.entityKind : ModelKind -> EntityKind
  | .model => .model
  | .interface => .interface

end SchemaMarkup
