import SchemaMarkup.Markup.Line

/-!
# Cursors over lines

A cursor walks over the lines of a source, one at a time. It can stand behind the last line,
and no further. It stands at every line in turn, whether the line says something or not; what
walks with it passes over the lines that say nothing.
-/

namespace SchemaMarkup

/-- A place among the lines of a source, counted from zero. -/
structure Cursor where
  lines : List Line
  position : Nat := 0
deriving DecidableEq, Repr

namespace Cursor

/-- A cursor at the first line of a source. -/
def ofSource (source : Text) : Cursor where
  lines := readLines source

/-- Whether the cursor stands behind the last line. -/
def isAtEnd (cursor : Cursor) : Bool :=
  cursor.lines.length <= cursor.position

/-- The line at the cursor. -/
def current? (cursor : Cursor) : Option Line :=
  cursor.lines[cursor.position]?

/-- The next line behind the cursor that says something. -/
def peek? (cursor : Cursor) : Option Line :=
  (cursor.lines.drop (cursor.position + 1)).find? fun line => !line.isIgnorable

/-- The cursor at a place, or behind the last line if there is no such place. -/
def seek (cursor : Cursor) (position : Nat) : Cursor :=
  { cursor with position := min position cursor.lines.length }

/-- The cursor behind the line that it stands at. -/
def advance (cursor : Cursor) : Cursor :=
  if cursor.isAtEnd then cursor else { cursor with position := cursor.position + 1 }

@[simp] theorem lines_advance (cursor : Cursor) : cursor.advance.lines = cursor.lines := by
  rw [advance]
  split <;> rfl

/-- The cursor gets past a line that it stands at. -/
theorem position_advance {cursor : Cursor} {line : Line} (here : cursor.current? = some line) :
    cursor.advance.position = cursor.position + 1 := by
  obtain ⟨within, _⟩ := List.getElem?_eq_some_iff.mp here
  have notAtEnd : ¬cursor.isAtEnd = true := by simpa [isAtEnd] using within
  rw [advance, if_neg notAtEnd]

/-- The cursor at the next line that says something, starting with its own. -/
def skipIgnorable (cursor : Cursor) : Cursor :=
  match here : cursor.current? with
  | none => cursor
  | some line =>
      have := position_advance here
      have := (List.getElem?_eq_some_iff.mp here).1
      if line.isIgnorable then cursor.advance.skipIgnorable else cursor
termination_by cursor.lines.length - cursor.position
decreasing_by simp only [lines_advance]; omega

/-- Takes the lines nested under an item of the depth, up to a line to stop before. Lines that
say nothing are passed over and end nothing. -/
def takeNested (cursor : Cursor) (depth stop : Nat) : List Line × Cursor :=
  if cursor.position < stop then
    match here : cursor.current? with
    | none => ([], cursor)
    | some line =>
        if !line.isIgnorable && !line.isNestedUnder depth then
          ([], cursor)
        else
          have := position_advance here
          let (nested, behind) := cursor.advance.takeNested depth stop
          (if line.isIgnorable then nested else line :: nested, behind)
  else
    ([], cursor)
termination_by stop - cursor.position

/-- Taking nested lines never leads back. -/
theorem position_le_takeNested (cursor : Cursor) (depth stop : Nat) :
    cursor.position <= (cursor.takeNested depth stop).2.position := by
  fun_induction takeNested cursor depth stop with
  | case1 => exact Nat.le_refl _
  | case2 => exact Nat.le_refl _
  | case3 cursor _ line here _ next nested behind taken inductionHypothesis =>
      rw [taken] at inductionHypothesis
      exact Nat.le_trans (by omega) inductionHypothesis
  | case4 => exact Nat.le_refl _

end Cursor

end SchemaMarkup
