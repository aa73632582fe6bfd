import SchemaMarkup.Markup.Line
import SchemaMarkup.Schema.Kind
import SchemaMarkup.Text.Cut

/-!
# Blocks and entries

Which headings open a block is a matter of the dialect, and so is which dialect the
headings of a source are written in. The body of a block is made of entries: section
headings, quotes, and items together with the lines nested under them.
-/

namespace SchemaMarkup

namespace Dialect

/-- Whether a line opens a block. -/
def opensBlock (dialect : Dialect) (line : Line) : Bool :=
  match dialect, line.kind with
  | .current, .heading level => level == 2
  | .legacy, .heading level => level == 1 || level == 2
  | _, _ => false

/-- Whether a line is the title of a document. -/
def isTitle (dialect : Dialect) (line : Line) : Bool :=
  match dialect, line.kind with
  | .current, .heading level => level == 1
  | _, _ => false

/-- The dialect that the lines of a source are written in. A heading of the second level or a
kind mark belongs to the current one; other headings of the first level to the legacy one. -/
def detect (lines : List Line) : Dialect :=
  let isCurrent := fun (line : Line) =>
    line.headingLevel? == some 2 ||
      line.headingLevel? == some 1 &&
        (line.content.containsWord "::interface" ||
          line.content.containsWord "::enum")
  if lines.any isCurrent then .current
  else if lines.any fun line => line.headingLevel? == some 1 then .legacy
  else .current

end Dialect

/-- A part of the body of a block. Other headings and prose say nothing there; they only end
the item before them. -/
inductive Entry where
  /-- A heading of a section. -/
  | sectionHeading (line : Line)
  | quote (line : Line)
  /-- An item of some depth and the lines nested under it. -/
  | item (depth : Nat) (line : Line) (nested : List Line)
deriving DecidableEq, Repr

/-- What a title names: the value behind the key `namespace`, or the title itself. -/
def titleName (title : Text) : String :=
  match title.splitKeyValue? with
  | some (key, value) =>
      if keysMatch key "namespace".toList then String.ofList value.unquote
      else String.ofList title.trim
  | none => String.ofList title.trim

end SchemaMarkup
