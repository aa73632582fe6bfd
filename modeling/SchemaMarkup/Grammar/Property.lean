import SchemaMarkup.Diagnostic.SchemaError
import SchemaMarkup.Text.Cut

/-!
# Property lines

The lines nested under an item refine what the item declares, one property a line.
A line that cannot be read changes nothing, so `refinements` goes on from the value
before it.
-/

namespace SchemaMarkup

/-- Reads a line `key: value` or `key = value`. -/
def readProperty (text : Text) : Except LineFault (Text × Text) := do
  asLineFault text.checkBalance
  match text.trim.splitKeyValue? with
  | some property => .ok property
  | none => .error (.notKeyValue (String.ofList text.trim))

/-- What each line of a run makes of a value: the value after the line, or its fault. -/
def refinements {Value Line Fault : Type} (refine : Value -> Line -> Except Fault Value)
    (value : Value) : List Line -> List (Except Fault Value)
  | [] => []
  | line :: later =>
      let outcome := refine value line
      outcome :: refinements refine (outcome.toOption.getD value) later

/-- The value after a run of lines of which those that fail are passed over. -/
def refineAll {Value Line Fault : Type} (refine : Value -> Line -> Except Fault Value)
    (value : Value) (lines : List Line) : Value :=
  lines.foldl (fun value line => (refine value line).toOption.getD value) value

end SchemaMarkup
