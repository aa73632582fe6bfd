import SchemaMarkup.Grammar.Constraint
import SchemaMarkup.Grammar.Field
import SchemaMarkup.Reading.Enumeration

/-!
# Reading models and interfaces

The body of a model is divided into sections by its headings; before the first of
them stand fields. An item that starts with `@` is a directive in every section
but the one for metadata. The items of a section whose name is not known are
passed over, with a warning at its heading. In the legacy dialect interfaces may
declare no relation and no index.
-/

namespace SchemaMarkup

/-- A section of the body of a model. -/
inductive BodySection where
  | fields
  | relations
  | indexes
  | metadata
  | unknown
deriving DecidableEq, Repr

/-- The names of the sections. -/
def BodySection.names : List (String × BodySection) :=
  [("fields", .fields), ("columns", .fields), ("properties", .fields),
   ("relations", .relations), ("relationships", .relations),
   ("indexes", .indexes), ("indices", .indexes),
   ("metadata", .metadata), ("meta", .metadata)]

/-- The section that a heading opens. -/
def BodySection.ofHeading (heading : Text) : BodySection :=
  ((names.find? fun entry => heading.trim.spells entry.1).map Prod.snd).getD .unknown

/-- Whether interfaces may declare relations and indexes. -/
def Dialect.interfacesCarryConstraints : Dialect -> Bool
  | .current => true
  | .legacy => false

namespace Field

/-- The field refined by a nested line: a paragraph of its description or a property line. -/
def refineByLine (field : Field) (line : Line) : Except SchemaError Field :=
  match line.kind with
  | .quote _ =>
      .ok { field with description := appendParagraph field.description line.content }
  | _ => atLocation line.location (field.refine line.content)

end Field

namespace Model

/-- Refuses a constraint on an interface if the dialect allows none. -/
def checkConstraint (model : Model) (dialect : Dialect) : Except LineFault Unit :=
  if model.isInterface && !dialect.interfacesCarryConstraints then
    .error (.constrainedInterface model.name dialect)
  else
    .ok ()

/-- The model with what a directive declares. -/
def addDirective (model : Model) : Directive -> Model
  | .index index => { model with indexes := model.indexes ++ [index] }
  | .relation relation => { model with relations := model.relations ++ [relation] }
  | .other call => { model with attributes := model.attributes ++ [call] }

/-- Reads the directives of a line. Every constraint among them has to be allowed. -/
def readDirectives (model : Model) (dialect : Dialect) (location : Location)
    (calls : List Attribute) : Except LineFault (List Directive) :=
  calls.mapM fun call => do
    let directive <- Directive.ofAttribute dialect location call
    if directive.isConstraint then
      model.checkConstraint dialect
    return directive

end Model

/-- Refines the last constraint of a line of directives, if there is one. -/
def refineLastConstraint {Fault : Type} (refine : Directive -> Except Fault Directive) :
    List Directive -> Option (Except Fault (List Directive))
  | [] => none
  | directive :: later =>
      match refineLastConstraint refine later with
      | some refined => some (refined.map (directive :: ·))
      | none =>
          if directive.isConstraint then some ((refine directive).map (· :: later)) else none

namespace Model

/-- The model with the field of an item and the lines nested under it. -/
def addField (model : Model) (line : Line) (nested : List Line) : Except SchemaError Model := do
  let (declared, _) <- atLocation line.location (Field.read line.location line.content)
  let field <- nested.foldlM Field.refineByLine { declared with declaredIn := model.name }
  atLocation line.location field.checkTyped
  if (model.field? field.name).isSome then
    throw (.duplicateField model.name field.name line.location)
  return { model with fields := model.fields ++ [field] }

/-- The model with the relation of an item and the lines nested under it. -/
def addRelation (model : Model) (dialect : Dialect) (line : Line) (nested : List Line) :
    Except SchemaError Model := do
  let some declared <- atLocation line.location (Relation.readLine line.location line.content)
    | throw (.structural (.notARelation (String.ofList line.content)) line.location)
  let relation <- nested.foldlM
    (fun relation line => atLocation line.location (relation.refine line.content)) declared
  atLocation line.location (model.checkConstraint dialect)
  return { model with relations := model.relations ++ [relation] }

/-- The model with the index of an item and the lines nested under it. -/
def addIndex (model : Model) (dialect : Dialect) (line : Line) (nested : List Line) :
    Except SchemaError Model := do
  let declared <- atLocation line.location (Index.readLine dialect line.location line.content)
  let index <- nested.foldlM
    (fun index line => atLocation line.location (index.refine dialect line.content)) declared
  atLocation line.location (model.checkConstraint dialect)
  return { model with indexes := model.indexes ++ [index] }

/-- The model with the metadata of an item, under which nothing is nested. -/
def addMetadata (model : Model) (line : Line) (nested : List Line) : Except SchemaError Model :=
  match line.content.splitKeyValue?, nested with
  | none, _ => .error (.structural (.notKeyValue (String.ofList line.content)) line.location)
  | some _, orphan :: _ => .error (orphanError orphan)
  | some (key, value), [] =>
      .ok { model with
        metadata := model.metadata.set (String.ofList key) (String.ofList value.unquote) }

/-- The model with the directives of an item. The description and the lines nested under the
item belong to the last constraint among them. -/
def addDirectiveLine (model : Model) (dialect : Dialect) (line : Line) (nested : List Line) :
    Except SchemaError Model := do
  let (body, description) := line.content.splitDescription
  let directives <- atLocation line.location do
    model.readDirectives dialect line.location (<- asLineFault body.callRun)
  let refine := fun directive => nested.foldlM
    (fun (directive : Directive) line =>
      atLocation line.location (directive.refine dialect line.content))
    (description.elim directive directive.describe)
  match refineLastConstraint refine directives, nested with
  | some refined, _ => return (<- refined).foldl addDirective model
  | none, [] => return directives.foldl addDirective model
  | none, orphan :: _ => throw (orphanError orphan)

/-- A model of which some entries have been read, and the section they have reached. -/
structure Progress where
  model : Model
  bodySection : BodySection := .fields
  warnings : List Diagnostic := []

/-- The model with an item of a section. -/
def addItem (model : Model) (dialect : Dialect) (bodySection : BodySection) (line : Line)
    (nested : List Line) : Except SchemaError Model :=
  if line.content.head? == some '@' && bodySection != .metadata then
    model.addDirectiveLine dialect line nested
  else
    match bodySection with
    | .fields => model.addField line nested
    | .relations => model.addRelation dialect line nested
    | .indexes => model.addIndex dialect line nested
    | .metadata => model.addMetadata line nested
    | .unknown => .ok model

/-- Reads one more entry. -/
def Progress.add (dialect : Dialect) (progress : Progress) (entry : Entry) :
    Except SchemaError Progress :=
  match entry with
  | .sectionHeading line =>
      match BodySection.ofHeading line.content with
      | .unknown =>
          let warning := Diagnostic.unknownSection (String.ofList line.content) line.location
          .ok { progress with
            bodySection := .unknown
            warnings := progress.warnings ++ [warning] }
      | bodySection => .ok { progress with bodySection }
  | .quote line =>
      let description := appendParagraph progress.model.description line.content
      .ok { progress with model := { progress.model with description } }
  | .item depth line nested =>
      if progress.bodySection == .unknown then
        .ok progress
      else if 1 < depth then
        .error (orphanError line)
      else do
        let model <- progress.model.addItem dialect progress.bodySection line nested
        return { progress with model }

/-- The model that a header declares by itself. Constraints among its attributes are read, and
the attributes are kept as well. -/
def ofHeader (dialect : Dialect) (kind : ModelKind) (header : Header) (location : Location) :
    Except SchemaError Model := do
  let start : Model := {
    name := header.name
    label := header.label
    description := header.description
    kind
    isAbstract := header.hasAttribute "abstract"
    isDefault := header.hasAttribute "default"
    inherits := header.inherits
    location }
  let directives <- atLocation location
    (start.readDirectives dialect location header.attributes)
  let model := directives.foldl addDirective start
  return { model with attributes := header.attributes }

/-- Reads a model or interface from its header and the lines between a cursor and a stop, with the
warnings on the way. -/
def assemble (dialect : Dialect) (kind : ModelKind) (header : Header) (location : Location)
    (stop : Nat) (cursor : Cursor) : Except SchemaError (Model × List Diagnostic) := do
  let start <- ofHeader dialect kind header location
  let progress <- cursor.readBody (fun _ => true) (Progress.add dialect) stop { model := start }
  return (progress.model, progress.warnings)

end Model

end SchemaMarkup
