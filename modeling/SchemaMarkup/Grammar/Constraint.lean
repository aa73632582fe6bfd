import SchemaMarkup.Grammar.Annotation
import SchemaMarkup.Grammar.Property
import SchemaMarkup.Schema.Constraint

/-!
# Constraint lines

Relations and indexes are written in three ways: as directives `@relation(...)`,
`@index(...)` and `@unique(...)`, as lines `>Target` and `<Target` of a section for
relations, and as lines `Name: A, B` of a section for indexes. Each may be refined
by property lines.
-/

namespace SchemaMarkup

/-- What an attribute of an entity declares. -/
inductive Directive where
  | index (index : Index)
  | relation (relation : Relation)
  /-- An attribute that declares no constraint. -/
  | other (call : Attribute)
deriving DecidableEq, Repr

namespace Relation

/-- Splits the direction off a relation: `->` or `>` leads to one entity, `<-` or `<` to many. -/
def splitDirection? (text : Text) : Option (RelationKind × Text) :=
  match text.trim with
  | '-' :: '>' :: rest => some (.toOne, rest)
  | '>' :: rest => some (.toOne, rest)
  | '<' :: '-' :: rest => some (.toMany, rest)
  | '<' :: rest => some (.toMany, rest)
  | _ => none

/-- Reads the target of a relation, which may be quoted. -/
def readTarget (text : Text) : Except LineFault String :=
  let target := text.unquote
  if target.isIdentifier then .ok (String.ofList target)
  else .error (.invalidRelationTarget (String.ofList target))

/-- Reads a referential action. -/
def readAction (text : Text) : Except LineFault ReferentialAction :=
  match ReferentialAction.read? text with
  | some action => .ok action
  | none => .error (.unknownAction (String.ofList text.trim))

/-- What the positional arguments of a directive say: one name, and a target with a direction. -/
structure Positional where
  name : Option String
  target : Option (RelationKind × String) := none

/-- Reads one more positional argument. A later target replaces an earlier one. -/
def Positional.add (positional : Positional) (argument : String) : Except LineFault Positional :=
  match splitDirection? argument.toList with
  | some (kind, rest) => do
      let target <- readTarget rest
      return { positional with target := some (kind, target) }
  | none =>
      if positional.name.isSome then
        .error (.unexpectedRelationArgument argument)
      else
        .ok { positional with name := some (String.ofList (Text.unquote argument.toList)) }

/-- The kind and target of a directive. A target that is given by its key is one entity. -/
def Positional.destination (positional : Positional) (call : Attribute) :
    Except LineFault (RelationKind × String) :=
  match positional.target, call.named? "target" with
  | some destination, _ => .ok destination
  | none, some target => (readTarget target.toList).map fun target => (.toOne, target)
  | none, none => .error (.undirectedRelation call.raw)

/-- Reads a directive `@relation(name, ->Target, key: value)`. -/
def ofAttribute (location : Location) (call : Attribute) : Except LineFault Relation := do
  let positional <- call.positional.foldlM Positional.add { name := call.named? "name" }
  let (kind, target) <- positional.destination call
  let onDelete <- (call.named? "onDelete").mapM fun action => readAction action.toList
  let onUpdate <- (call.named? "onUpdate").mapM fun action => readAction action.toList
  return {
    name := positional.name.getD target
    fromField := call.named? "from"
    description := (call.named? "description").bind fun text => Text.nonBlank? text.toList
    kind, target, onDelete, onUpdate, location }

/-- Reads the name behind the target of a relation line, or takes the target for a name. -/
def readLineName (line : Text) (target : String) : List Text -> Except LineFault String
  | [] => .ok target
  | [keyword, name] =>
      if keyword.spells "as" && name.isIdentifier then .ok (String.ofList name)
      else .error (.textAfterRelation (String.ofList line.trim))
  | _ => .error (.textAfterRelation (String.ofList line.trim))

/-- Reads a line `>Target as Name "description"`. A line that starts with no direction is none. -/
def readLine (location : Location) (text : Text) : Except LineFault (Option Relation) :=
  match splitDirection? text with
  | none => .ok none
  | some (kind, rest) => do
      let (body, description) := rest.splitDescription
      asLineFault body.checkBalance
      let (body, quoted) := body.takeTrailingQuoted
      match body.words with
      | [] => throw .relationWithoutTarget
      | target :: words =>
          let target <- readTarget target
          let name <- readLineName text target words
          return some { name, kind, target, location, description := description.or quoted }

/-- The relation refined by a property line. -/
def refine (relation : Relation) (text : Text) : Except LineFault Relation := do
  let (key, value) <- readProperty text
  let isKey := fun (name : String) => keysMatch key name.toList
  if isKey "from" then
    return { relation with fromField := value.unquote.nonBlank? }
  else if isKey "onDelete" then
    let action <- readAction value
    return { relation with onDelete := some action }
  else if isKey "onUpdate" then
    let action <- readAction value
    return { relation with onUpdate := some action }
  else if isKey "description" || isKey "desc" then
    return { relation with description := value.unquote.nonBlank? }
  else if isKey "name" then
    return { relation with name := String.ofList value.unquote }
  else
    throw (.unknownRelationProperty (String.ofList key))

end Relation

namespace Index

/-- Reads the name of an indexed field, which may be quoted. -/
def readField (text : Text) : Except LineFault String :=
  let field := text.unquote
  if field.isIdentifier then .ok (String.ofList field)
  else .error (.invalidIndexField (String.ofList field))

/-- An index over at least one field. Without a name it has the generated one. -/
def build (dialect : Dialect) (location : Location) (name : Option String) (fields : List String)
    (isUnique : Bool) (description : Option String) : Except LineFault Index :=
  if fields.isEmpty then
    .error .indexWithoutFields
  else
    .ok {
      name := name.getD (dialect.generatedName fields isUnique)
      fields, isUnique, description, location }

/-- Reads a directive `@index(A, B, key: value)` or `@unique(A, B, key: value)`. -/
def ofAttribute (dialect : Dialect) (location : Location) (call : Attribute) :
    Except LineFault Index := do
  let fields <- call.positional.mapM fun field => readField field.toList
  let isUnique := call.isNamed "unique" ||
    ((call.named? "unique").bind fun text => Text.truth? text.toList).getD false
  build dialect location (call.named? "name") fields isUnique (call.named? "description")

/-- Reads a line `Name: A, B @unique #description` or just `A, B`. -/
def readLine (dialect : Dialect) (location : Location) (text : Text) : Except LineFault Index := do
  let (body, description) := text.splitDescription
  asLineFault body.checkBalance
  let annotated <- asLineFault body.splitSemantic
  let (name, listed) :=
    match annotated.before.cutAt ':' with
    | some cut => (cut.before.unquote.nonBlank?, cut.following)
    | none => (none, annotated.before)
  let fields <- (listed.pieces ',').mapM readField
  let isUnique := annotated.attributes.any fun call => call.isNamed "unique"
  build dialect location name fields isUnique (description.or annotated.quoted)

/-- The name that the dialect generates for the index as it is. -/
def generatedName (index : Index) (dialect : Dialect) : String :=
  dialect.generatedName index.fields index.isUnique

/-- The index after a change to its fields or uniqueness. A generated name follows the change. -/
def renamedFrom (changed earlier : Index) (dialect : Dialect) : Index :=
  if earlier.name == earlier.generatedName dialect then
    { changed with name := changed.generatedName dialect }
  else
    changed

/-- The index refined by a property line. -/
def refine (dialect : Dialect) (index : Index) (text : Text) : Except LineFault Index := do
  let (key, value) <- readProperty text
  let isKey := fun (name : String) => keysMatch key name.toList
  if isKey "fields" then
    let fields <- (value.pieces ',').mapM readField
    return { index with fields }.renamedFrom index dialect
  else if isKey "unique" then
    match value.truth? with
    | some isUnique => return { index with isUnique }.renamedFrom index dialect
    | none => throw (.notTruthValue (String.ofList value))
  else if isKey "description" || isKey "desc" then
    return { index with description := value.unquote.nonBlank? }
  else if isKey "name" then
    return { index with name := String.ofList value.unquote }
  else
    throw (.unknownIndexProperty (String.ofList key))

end Index

namespace Directive

/-- Reads what an attribute of an entity declares. -/
def ofAttribute (dialect : Dialect) (location : Location) (call : Attribute) :
    Except LineFault Directive :=
  if call.isNamed "unique" || call.isNamed "index" then
    (Index.ofAttribute dialect location call).map .index
  else if call.isNamed "relation" then
    (Relation.ofAttribute location call).map .relation
  else
    .ok (.other call)

/-- Whether the directive declares a relation or an index. -/
def isConstraint : Directive -> Bool
  | .other _ => false
  | _ => true

/-- The directive with a description of its constraint. -/
def describe (description : String) : Directive -> Directive
  | .index declared => .index { declared with description := some description }
  | .relation declared => .relation { declared with description := some description }
  | .other call => .other call

/-- The directive with its constraint refined by a property line. -/
def refine (dialect : Dialect) (directive : Directive) (text : Text) :
    Except LineFault Directive :=
  match directive with
  | .index declared => (declared.refine dialect text).map .index
  | .relation declared => (declared.refine text).map .relation
  | .other call => .ok (.other call)

end Directive

end SchemaMarkup
