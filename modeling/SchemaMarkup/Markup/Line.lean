import SchemaMarkup.Diagnostic.Location
import SchemaMarkup.Text.Blank

/-!
# Lines

A source is read line by line, and the kind of a line is decided by its own text
alone, except inside comments and fenced code. The depth of an item is its
indentation (two blanks or one tab a level) plus the number of its dashes, so
`- x`, `-- x` and `  - x` have the depths 1, 2 and 2.

Line numbers start at one and spans are byte ranges of the source. A line ends at
a line feed; a carriage return before it belongs to the terminator.
-/

namespace SchemaMarkup

/-- What a line is by its form. -/
inductive LineKind where
  /-- A blank line, a rule, or a line of a comment or of fenced code. -/
  | ignorable
  /-- A heading with so many `#`. -/
  | heading (level : Nat)
  /-- An item with dashes. -/
  | item (depth : Nat)
  /-- A line `> text` with so many levels of indentation before its mark. -/
  | quote (indent : Nat)
  /-- Any other text. -/
  | prose
deriving DecidableEq, Repr

/-- One line of a source. -/
structure Line where
  number : Nat
  kind : LineKind
  /-- The text without its mark and without blanks at its ends. -/
  content : Text
  /-- The line without its terminator. -/
  raw : Text
  span : Span
deriving DecidableEq, Repr

namespace Line

/-- Where the line stands in the source. -/
def location (line : Line) : Location where
  line := line.number
  text := String.ofList line.raw
  span := line.span

/-- Whether the line says nothing. -/
def isIgnorable (line : Line) : Bool :=
  line.kind == .ignorable

/-- The number of `#` of a heading. -/
def headingLevel? (line : Line) : Option Nat :=
  match line.kind with
  | .heading level => some level
  | _ => none

/-- Whether the line is a heading that opens a section inside of a block. -/
def opensSection (line : Line) : Bool :=
  match line.kind with
  | .heading level => 3 <= level
  | _ => false

/-- The depth of an item. -/
def depth? (line : Line) : Option Nat :=
  match line.kind with
  | .item depth => some depth
  | _ => none

/-- Whether the line continues an item of the depth: deeper items do, and indented quotes. -/
def isNestedUnder (line : Line) (depth : Nat) : Bool :=
  match line.kind with
  | .item own => depth < own
  | .quote indent => 0 < indent
  | _ => false

end Line

namespace Text

/-- The levels of indentation before a line: a tab is one level, two spaces are another. -/
def indentation (raw : Text) : Nat :=
  let leading : Text := raw.takeWhile fun character => character == ' ' || character == '\t'
  leading.count '\t' + leading.count ' ' / 2

/-- The heading that a line is, if a blank and some text follow its `#` signs. -/
def heading? (raw : Text) : Option (LineKind × Text) :=
  let level := (raw.takeWhile (· == '#')).length
  let rest : Text := raw.dropWhile (· == '#')
  if rest.head?.any isBlank && !rest.trim.isEmpty then
    some (.heading level, rest.trim)
  else
    none

/-- The item that a line is, if a blank follows its dashes. Without text it says nothing. -/
def item? (raw : Text) : Option (LineKind × Text) :=
  let body := raw.trimStart
  let dashes := (body.takeWhile (· == '-')).length
  let rest : Text := body.dropWhile (· == '-')
  if rest.head?.any isBlank then
    some (if rest.trim.isEmpty then .ignorable else .item (raw.indentation + dashes), rest.trim)
  else
    none

/-- The kind of a line outside of comments and fenced code, and its content. -/
def classify (raw : Text) : LineKind × Text :=
  let trimmed := raw.trim
  if trimmed.isEmpty || (3 <= trimmed.length && trimmed.all (· == '-')) then
    (.ignorable, trimmed)
  else if raw.head? == some '#' then
    raw.heading?.getD (.prose, trimmed)
  else if trimmed.head? == some '-' then
    raw.item?.getD (.prose, trimmed)
  else if trimmed.head? == some '>' then
    (.quote raw.indentation, Text.trim trimmed.tail)
  else
    (.prose, trimmed)

/-- The pieces of a text between line feeds. -/
def splitLines : Text -> List Text
  | [] => [[]]
  | '\n' :: rest => [] :: splitLines rest
  | character :: rest =>
      match splitLines rest with
      | line :: later => (character :: line) :: later
      | [] => [[character]]

/-- A line without the carriage return that it ends with. -/
def dropReturn (line : Text) : Text :=
  if line.getLast? == some '\r' then line.dropLast else line

end Text

/-- What surrounds a line: nothing, a comment or fenced code. -/
inductive Surrounding where
  | plain
  | comment
  | fence
deriving DecidableEq, Repr

namespace Surrounding

/-- What surrounds the line after one whose trimmed text is given. -/
def after (surrounding : Surrounding) (trimmed : Text) : Surrounding :=
  match surrounding with
  | .comment => if trimmed.containsWord "-->" then .plain else .comment
  | .fence => if trimmed.startsWith "```" then .plain else .fence
  | .plain =>
      if trimmed.startsWith "```" then .fence
      else if trimmed.startsWith "<!--" && !Text.containsWord (trimmed.drop 4) "-->" then .comment
      else .plain

/-- Whether a line belongs to a comment or to fenced code. -/
def hides (surrounding : Surrounding) (trimmed : Text) : Bool :=
  surrounding != .plain || trimmed.startsWith "```" || trimmed.startsWith "<!--"

/-- The kind and the content of a line in its surroundings. -/
def classify (surrounding : Surrounding) (raw : Text) : LineKind × Text :=
  if surrounding.hides raw.trim then (.ignorable, raw.trim) else raw.classify

end Surrounding

/-- Reads lines from a line number and a byte offset on. -/
def readLinesFrom (surrounding : Surrounding) (number offset : Nat) : List Text -> List Line
  | [] => []
  | segment :: later =>
      let raw := segment.dropReturn
      let (kind, content) := surrounding.classify raw
      { number, kind, content, raw
        span := { start := offset, stop := offset + raw.byteLength } } ::
          readLinesFrom (surrounding.after raw.trim) (number + 1)
            (offset + segment.byteLength + 1) later

/-- The lines of a source. There is one more of them than there are line feeds. -/
def readLines (source : Text) : List Line :=
  readLinesFrom .plain 1 0 source.splitLines

end SchemaMarkup
