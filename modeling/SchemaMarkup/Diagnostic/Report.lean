import SchemaMarkup.Diagnostic.Basic
import SchemaMarkup.Text.Blank

/-!
# Reports

A report shows a finding against its source: a title, the place, and the lines the
finding is about with each remark drawn under its line. Lines that are not shown
leave a gap.

    [05] Warning: Unknown section 'Foo', its lines are ignored
       ╭─[ <unknown>:2:1 ]
       │
     2 │ ### Foo
       │ ───┬───
       │    ╰───── Unknown section 'Foo', its lines are ignored
    ───╯

A remark hangs from the middle of what it is about, and its arm ends two columns
behind that. Remarks on one line hang side by side, the leftmost one above. A tab
reaches to the next column whose number is a multiple of four.
-/

namespace SchemaMarkup

/-- A line of a source as reports count lines. -/
structure SourceLine where
  /-- The number of the line, counted from one. -/
  number : Nat
  /-- The byte offset at which the line starts. -/
  start : Nat
  /-- The line with its terminator. -/
  text : Text
deriving DecidableEq, Repr

namespace SourceLine

/-- The characters that end a line of a report. -/
def terminators : List Char :=
  ['\r', '\n', '\x0b', '\x0c', '\u0085', '\u2028', '\u2029']

/-- Divides a text behind its line terminators; a carriage return and a line feed are one. -/
def splitTerminated : Text -> List Text
  | [] => []
  | '\r' :: '\n' :: rest => ['\r', '\n'] :: splitTerminated rest
  | character :: rest =>
      if terminators.contains character then
        [character] :: splitTerminated rest
      else
        match splitTerminated rest with
        | line :: later => (character :: line) :: later
        | [] => [[character]]

/-- Numbers lines from a number and a byte offset on. -/
def numberFrom (number start : Nat) : List Text -> List SourceLine
  | [] => []
  | text :: later =>
      { number, start, text } :: numberFrom (number + 1) (start + text.byteLength) later

/-- The lines of a source. An empty source has one empty line. -/
def all (source : Text) : List SourceLine :=
  numberFrom 1 0 (if source.isEmpty then [[]] else splitTerminated source)

/-- The line that a byte offset falls on: the last one that starts no later. -/
def find (lines : List SourceLine) (offset : Nat) : SourceLine :=
  ((lines.takeWhile fun line => line.start <= offset).getLast?).getD
    { number := 1, start := 0, text := [] }

/-- The number of characters that start before a byte offset of the text. -/
def charactersBefore (offset : Nat) : Text -> Nat
  | [] => 0
  | character :: rest =>
      if offset = 0 then 0 else charactersBefore (offset - character.utf8Size) rest + 1

/-- The column of a byte offset of the source, counted in characters from zero. -/
def column (line : SourceLine) (offset : Nat) : Nat :=
  charactersBefore (offset - line.start) line.text

/-- The text that a report shows of the line. -/
def visible (line : SourceLine) : Text :=
  line.text.trimEnd

/-- The width of the character in some column. -/
def widthAt (line : SourceLine) (column : Nat) : Nat :=
  if line.visible[column]? == some '\t' then 4 - column % 4 else 1

/-- The line as a report shows it. -/
def shown (line : SourceLine) : String :=
  String.join (line.visible.zipIdx.map fun (character, column) =>
    if isBlank character then String.ofList (List.replicate (line.widthAt column) ' ')
    else String.singleton character)

/-- Draws some columns under the line. A wide character repeats the second sign of its column. -/
def draw (line : SourceLine) (columns : Nat) (signs : Nat -> Char × Char) : String :=
  String.join ((List.range columns).map fun column =>
    let (sign, filler) := signs column
    String.ofList (sign :: List.replicate (line.widthAt column - 1) filler))

end SourceLine

/-- A remark on a part of a line. -/
structure Remark where
  line : SourceLine
  /-- The columns of the part, from the first one to behind the last one. -/
  first : Nat
  stop : Nat
  message : String

namespace Remark

/-- The span that is left when a source ends early. -/
def clamp (span : Span) (size : Nat) : Span :=
  let start := min span.start size
  { start, stop := max start (min span.stop size) }

/-- A remark on a span of the source. -/
def ofSpan (source : Text) (lines : List SourceLine) (span : Span) (message : String) : Remark :=
  let clamped := clamp span source.byteLength
  let line := SourceLine.find lines clamped.start
  { line, first := line.column clamped.start, stop := line.column clamped.stop, message }

/-- The column from which the remark hangs. -/
def middle (remark : Remark) : Nat :=
  (remark.first + remark.stop) / 2

/-- Whether the remark is about a column. -/
def covers (remark : Remark) (column : Nat) : Bool :=
  remark.first <= column && column < remark.stop

/-- Whether one remark is drawn no later than another: by line, then by the column from which
it hangs. Of two that hang from one column, the one that starts later goes first. -/
def drawnBefore (earlier later : Remark) : Bool :=
  if earlier.line.number != later.line.number then earlier.line.number <= later.line.number
  else if earlier.middle != later.middle then earlier.middle <= later.middle
  else later.first <= earlier.first

/-- The bars of remarks that still hang, between the underlines of some remarks. -/
def bars (underlined hanging : List Remark) (column : Nat) : Char × Char :=
  let isUnderlined := underlined.any fun remark => remark.covers column
  if hanging.any fun remark => remark.middle == column then
    if isUnderlined then ('┬', '─') else ('│', ' ')
  else if isUnderlined then ('─', '─')
  else (' ', ' ')

/-- The arm that leads from the bar of a remark to its message. -/
def arm (remark : Remark) (column : Nat) : Char × Char :=
  if column < remark.middle then (' ', ' ')
  else if column == remark.middle then ('╰', '─')
  else ('─', '─')

/-- Draws the remarks on a line below each other, with the underlines above the first of them.
Every arm ends two columns behind the last part that a remark is about. -/
def drawAll (line : SourceLine) (columns : Nat) (underlined : List Remark) :
    List Remark -> List String
  | [] => []
  | remark :: later =>
      line.draw columns (bars underlined (remark :: later)) ::
        (line.draw columns remark.arm ++ " " ++ remark.message) ::
          drawAll line columns [] later

/-- The remarks on one line, drawn. -/
def drawLine (line : SourceLine) (remarks : List Remark) : List String :=
  let columns := (remarks.map fun remark => remark.stop + 2).foldl max 0
  drawAll line columns remarks remarks

end Remark

namespace Diagnostic

/-- The word for the severity in the title of a report. -/
def reportWord : Severity -> String
  | .error => "Error"
  | .warning => "Warning"
  | .info => "Advice"
  | .hint => "Advice"

/-- A number with blanks before it up to a width. -/
def padNumber (width number : Nat) : String :=
  let digits := toString number
  String.ofList (List.replicate (width - digits.length) ' ') ++ digits

/-- The lines of a report with their remarks, in order, and a gap between lines that are not
neighbours. -/
def remarkBlocks (width : Nat) (previous : Option Nat) : List (List Remark) -> List String
  | [] => []
  | [] :: later => remarkBlocks width previous later
  | (remark :: others) :: later =>
      let margin := String.ofList (List.replicate (width + 2) ' ') ++ "│ "
      let line := remark.line
      let gap := if previous.any fun shown => shown + 1 < line.number then [margin] else []
      gap ++ s!" {padNumber width line.number} │ {line.shown}" ::
        (Remark.drawLine line (remark :: others)).map (margin ++ ·) ++
          remarkBlocks width (some line.number) later

/-- The report of a finding. -/
def report (source : Text) (diagnostic : Diagnostic) : String :=
  let lines := SourceLine.all source
  let own := Remark.ofSpan source lines diagnostic.location.span diagnostic.message
  let related := diagnostic.related.map fun (location, message) =>
    Remark.ofSpan source lines location.span message
  let remarks := (own :: related).mergeSort Remark.drawnBefore
  let last := (remarks.map fun remark => remark.line.number).foldl max 0
  let width := (toString last).length
  let indent := String.ofList (List.replicate (width + 2) ' ')
  let code := toString diagnostic.code.number
  let padded := if code.length < 2 then "0" ++ code else code
  let title := s!"[{padded}] {reportWord diagnostic.severity}: {diagnostic.message}"
  let place := s!"{indent}╭─[ <unknown>:{own.line.number}:{own.first + 1} ]"
  let foot := String.ofList (List.replicate (width + 2) '─') ++ "╯"
  let blocks := remarkBlocks width none
    (remarks.splitBy fun earlier later => earlier.line.number == later.line.number)
  String.join (([title, place, indent ++ "│"] ++ blocks ++ [foot]).map (· ++ "\n"))

/-- The reports of several findings, with an empty line between them. -/
def reports (source : Text) (diagnostics : List Diagnostic) : String :=
  "\n".intercalate (diagnostics.map (report source))

end Diagnostic

end SchemaMarkup
