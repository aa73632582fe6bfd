import SchemaMarkup.Reading.ForeignKey
import SchemaMarkup.Reading.Model

/-!
# Reading documents

The headings of all blocks are read before any body, and no two of them may
declare one name. Then a cursor is set behind each heading in turn, and the block is
read from there to the next heading. Foreign keys come last, when every name of the
document is known. The first fault ends the reading.
-/

namespace SchemaMarkup

/-- Which dialect to read a source in. -/
inductive DialectChoice where
  /-- The one that the headings of the source are written in. -/
  | auto
  | fixed (dialect : Dialect)
deriving DecidableEq, Repr

/-- How to read a source. -/
structure ReadingOptions where
  dialect : DialectChoice := .auto
  /-- Whether fields that are named like references become foreign keys. -/
  infersForeignKeys : Bool := true
deriving DecidableEq, Repr

/-- The dialect to read some lines in. -/
def DialectChoice.dialectFor (choice : DialectChoice) (lines : List Line) : Dialect :=
  match choice with
  | .auto => .detect lines
  | .fixed dialect => dialect

/-- A heading that has been read, and the place of its line. -/
structure BlockHeader where
  header : Header
  /-- The number of lines before the heading. -/
  start : Nat
  location : Location
deriving DecidableEq, Repr

namespace BlockHeader

/-- Reads the entity of a block that ends before a line, with the warnings on the way. -/
def assemble (dialect : Dialect) (cursor : Cursor) (block : BlockHeader) (stop : Nat) :
    Except SchemaError (Entity × List Diagnostic) :=
  let body := cursor.seek (block.start + 1)
  let assembleModel := fun kind => do
    let (model, warnings) <- Model.assemble dialect kind block.header block.location stop body
    return (.model model, warnings)
  match block.header.kind with
  | .model => assembleModel .model
  | .interface => assembleModel .interface
  | .enumeration => do
      let enumeration <- Enumeration.assemble block.header block.location stop body
      return (.enumeration enumeration, [])

/-- The lines that blocks end before: each at the heading of the next one, and the last at the
end. -/
def stops (blocks : List BlockHeader) (lineCount : Nat) : List Nat :=
  blocks.tail.map start ++ [lineCount]

end BlockHeader

/-- What the headings of a source tell before any body is read. -/
structure HeaderPass where
  namespaceName : Option String := none
  blocks : List BlockHeader := []
deriving DecidableEq, Repr

namespace HeaderPass

/-- Looks at one more line. Only titles before the first block name the document, and only the first
of them does. -/
def add (dialect : Dialect) (pass : HeaderPass) (line : Line) (place : Nat) :
    Except SchemaError HeaderPass :=
  if dialect.isTitle line then
    if pass.blocks.isEmpty && pass.namespaceName.isNone then
      .ok { pass with namespaceName := some (titleName line.content) }
    else
      .ok pass
  else if dialect.opensBlock line then do
    let location := line.location
    let header <- atLocation location (Header.read dialect line.content)
    if let some first := pass.blocks.find? fun other => other.header.name == header.name then
      throw (.duplicateEntity header.name location first.location)
    return { pass with blocks := pass.blocks ++ [{ header, start := place, location }] }
  else
    .ok pass

/-- Goes over all lines of a source. -/
def collect (dialect : Dialect) (lines : List Line) : Except SchemaError HeaderPass :=
  lines.zipIdx.foldlM (fun pass line => pass.add dialect line.1 line.2) {}

end HeaderPass

namespace Document

/-- Reads the bodies of blocks into a document, with the warnings on the way. -/
def assembleBlocks (dialect : Dialect) (cursor : Cursor) (pass : HeaderPass) :
    Except SchemaError (Document × List Diagnostic) :=
  let start := Document.empty dialect pass.namespaceName
  (pass.blocks.zip (BlockHeader.stops pass.blocks cursor.lines.length)).foldlM
    (fun read block => do
      let (entity, warnings) <- block.1.assemble dialect cursor block.2
      return (read.1.insert entity, read.2 ++ warnings))
    (start, [])

/-- Reads a document, with the warnings on the way. -/
def read (options : ReadingOptions) (source : Text) :
    Except SchemaError (Document × List Diagnostic) := do
  let cursor := Cursor.ofSource source
  let dialect := options.dialect.dialectFor cursor.lines
  let pass <- HeaderPass.collect dialect cursor.lines
  let (document, warnings) <- assembleBlocks dialect cursor pass
  if options.infersForeignKeys then
    return (document.inferForeignKeys, warnings)
  else
    return (document, warnings)

end Document

end SchemaMarkup
