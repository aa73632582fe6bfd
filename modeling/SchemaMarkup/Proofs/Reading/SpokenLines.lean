import SchemaMarkup.Reading.Document

/-!
# Reading spoken lines

A document is read by a cursor that stands at every line. What it reads can be told without a cursor
from the lines that say something: they are divided into a preamble and blocks, the body of a block
into entries, and each entry is read in turn (`Document.ofSpokenLines`). In this form reading is a
recursion over lists, and a block is read by itself.

Nothing here says that the two are the same; lines that say nothing, and lines that are nested under
an item which does not own them, make it a theorem (`Document.read_eq`).
-/

namespace SchemaMarkup

/-! ## Blocks and their entries -/

/-- A heading that opens a block, and the lines up to the next one. -/
structure Block where
  heading : Line
  body : List Line
deriving DecidableEq, Repr

/-- Divides lines into those before the first block and the blocks. -/
def splitBlocks (dialect : Dialect) : List Line → List Line × List Block
  | [] => ([], [])
  | line :: later =>
      let (front, blocks) := splitBlocks dialect later
      if dialect.opensBlock line then ([], { heading := line, body := front } :: blocks)
      else (line :: front, blocks)

/-- Divides lines into those nested under an open item, if there is one, and the entries
after them. -/
def readEntriesUnder : Option Nat → List Line → List Line × List Entry
  | _, [] => ([], [])
  | parent, line :: later =>
      if parent.any line.isNestedUnder then
        let (nested, entries) := readEntriesUnder parent later
        (line :: nested, entries)
      else
        let (nested, entries) := readEntriesUnder line.depth? later
        match line.kind with
        | .item depth => ([], .item depth line nested :: entries)
        | .quote _ => ([], .quote line :: entries)
        | .heading _ => ([], if line.opensSection then .sectionHeading line :: entries else entries)
        | _ => ([], entries)

/-- The entries of the body of a block. -/
def Block.entries (block : Block) : List Entry :=
  (readEntriesUnder none block.body).2

/-- What the first title of a preamble names. -/
def Dialect.namespaceName? (dialect : Dialect) (preamble : List Line) : Option String :=
  (preamble.find? dialect.isTitle).map fun line => titleName line.content

/-! ## Entities -/

namespace Enumeration

/-- Reads an enumeration from its header and the entries of its block. -/
def read (header : Header) (location : Location) (entries : List Entry) :
    Except SchemaError Enumeration := do
  if let parent :: _ := header.inherits then
    throw (.invalidInheritance (.enumerationInherits header.name parent) location)
  let start : Enumeration := {
    name := header.name
    label := header.label
    description := header.description
    attributes := header.attributes
    location }
  let progress ← entries.foldlM Progress.add { enumeration := start }
  return progress.enumeration

end Enumeration

namespace Model

/-- Reads a model or interface from its header and the entries of its block, with the
warnings on the way. -/
def read (dialect : Dialect) (kind : ModelKind) (header : Header) (location : Location)
    (entries : List Entry) : Except SchemaError (Model × List Diagnostic) := do
  let start ← ofHeader dialect kind header location
  let progress ← entries.foldlM (Progress.add dialect) { model := start }
  return (progress.model, progress.warnings)

end Model

/-- A block whose heading has been read. -/
structure Declaration where
  header : Header
  block : Block
deriving DecidableEq, Repr

namespace Declaration

/-- Where the heading stands. -/
def location (declaration : Declaration) : Location :=
  declaration.block.heading.location

/-- Reads the headings of blocks that follow some declarations. -/
def readAllAfter (dialect : Dialect) (earlier : List Declaration) :
    List Block → Except SchemaError (List Declaration)
  | [] => .ok []
  | block :: later => do
      let location := block.heading.location
      let header ← atLocation location (Header.read dialect block.heading.content)
      if let some first := earlier.find? fun other => other.header.name == header.name then
        throw (.duplicateEntity header.name location first.location)
      let declaration := { header, block }
      let declarations ← readAllAfter dialect (earlier ++ [declaration]) later
      return declaration :: declarations

/-- Reads the entity that a block declares, with the warnings on the way. -/
def readEntity (dialect : Dialect) (declaration : Declaration) :
    Except SchemaError (Entity × List Diagnostic) :=
  let readModel := fun kind => do
    let (model, warnings) ← Model.read dialect kind declaration.header declaration.location
      declaration.block.entries
    return (.model model, warnings)
  match declaration.header.kind with
  | .model => readModel .model
  | .interface => readModel .interface
  | .enumeration => do
      let enumeration ← Enumeration.read declaration.header declaration.location
        declaration.block.entries
      return (.enumeration enumeration, [])

end Declaration

/-! ## Documents -/

namespace Document

/-- Reads a document in a dialect from the lines that say something, without foreign keys. -/
def ofLines (dialect : Dialect) (lines : List Line) :
    Except SchemaError (Document × List Diagnostic) := do
  let (preamble, blocks) := splitBlocks dialect lines
  let declarations ← Declaration.readAllAfter dialect [] blocks
  let entities ← declarations.mapM (Declaration.readEntity dialect)
  let start := Document.empty dialect (dialect.namespaceName? preamble)
  return (entities.foldl (fun document entity => document.insert entity.1) start,
    entities.flatMap Prod.snd)

/-- The document that the lines of a source declare which say something. -/
def ofSpokenLines (options : ReadingOptions) (lines : List Line) :
    Except SchemaError (Document × List Diagnostic) := do
  let (document, warnings) ← ofLines (options.dialect.dialectFor lines) lines
  if options.infersForeignKeys then
    return (document.inferForeignKeys, warnings)
  else
    return (document, warnings)

end Document

/-- The lines of a source that say something. -/
def spokenLines (source : Text) : List Line :=
  (readLines source).filter fun line => !line.isIgnorable

end SchemaMarkup
