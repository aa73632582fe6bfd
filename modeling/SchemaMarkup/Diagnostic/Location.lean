/-!
# Source locations

A location names a line by its number, its text and its place among the bytes of
the source.
-/

namespace SchemaMarkup

/-- A half-open range of byte offsets. -/
structure Span where
  start : Nat
  stop : Nat
deriving DecidableEq, Repr

/-- A line of a source. Lines are counted from one. -/
structure Location where
  line : Nat
  /-- The line without its terminator. -/
  text : String
  span : Span
deriving DecidableEq, Repr

/-- The location of what was written in no source: line zero, no text, no bytes. -/
def Location.unknown : Location where
  line := 0
  text := ""
  span := { start := 0, stop := 0 }

end SchemaMarkup
