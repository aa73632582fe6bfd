import SchemaMarkup.Text.Letters
import SchemaMarkup.Text.Numeral

/-!
# Lengths

The declared size of a field stands in parentheses after its type: `string(50)`,
`decimal(18,2)`, `text(max)`.
-/

namespace SchemaMarkup

/-- The declared size of a field. -/
inductive Length where
  /-- Storage without a bound. -/
  | max
  | fixed (size : UInt32)
  | decimal (precision scale : UInt32)
deriving DecidableEq, Repr

namespace Length

/-- Reads `max`, a numeral, or two numerals around the first comma. -/
def read? (text : Text) : Option Length :=
  let trimmed := text.trim
  if trimmed.spells "max" then
    some .max
  else
    let leading : Text := trimmed.takeWhile (· != ',')
    match trimmed.dropWhile (· != ',') with
    | [] => (Numeral.read? leading).map .fixed
    | _ :: following =>
        match Numeral.read? leading.trim, Numeral.read? (Text.trim following) with
        | some precision, some scale => some (.decimal precision scale)
        | _, _ => none

/-- The text of a length. -/
def render : Length -> String
  | .max => "max"
  | .fixed size => s!"{size.toNat}"
  | .decimal precision scale => s!"{precision.toNat},{scale.toNat}"

/-- Whether the length sets no bound. -/
def isUnbounded (length : Length) : Bool :=
  length == .max

end Length

end SchemaMarkup
