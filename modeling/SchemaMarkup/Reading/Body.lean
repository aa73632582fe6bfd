import SchemaMarkup.Diagnostic.SchemaError
import SchemaMarkup.Markup.Block
import SchemaMarkup.Markup.Cursor

/-!
# Reading the body of a block

The body of a block is read by a cursor that goes from line to line up to a stop. A section heading,
a quote and an item with its nested lines are entries, and each of them changes what has been read
so far. Lines that say nothing, prose and other headings are passed over.
-/

namespace SchemaMarkup

namespace Cursor

/-- Reads the entries between the cursor and a line to stop before. The lines nested under an item
are read with it, if it owns them; otherwise they are read like any other. -/
def readBody {State : Type} (owns : Line -> Bool) (add : State -> Entry -> Except SchemaError State)
    (stop : Nat) (cursor : Cursor) (state : State) : Except SchemaError State :=
  if cursor.position < stop then
    match here : cursor.current? with
    | none => .ok state
    | some line =>
        have := position_advance here
        match line.kind with
        | .ignorable | .prose => readBody owns add stop cursor.advance state
        | .heading _ =>
            if line.opensSection then do
              readBody owns add stop cursor.advance (<- add state (.sectionHeading line))
            else
              readBody owns add stop cursor.advance state
        | .quote _ => do
            readBody owns add stop cursor.advance (<- add state (.quote line))
        | .item depth =>
            if owns line then do
              have := position_le_takeNested cursor.advance depth stop
              let taken := cursor.advance.takeNested depth stop
              readBody owns add stop taken.2 (<- add state (.item depth line taken.1))
            else do
              readBody owns add stop cursor.advance (<- add state (.item depth line []))
  else
    .ok state
termination_by stop - cursor.position

end Cursor

end SchemaMarkup
