import SchemaMarkup.Grammar.Content
import SchemaMarkup.Text.Cut

/-!
# Type expressions

    type ::= name '?'? ( '(' balanced ')' )? '?'? rest

A `?` on either side of the parentheses makes the type nullable. A group that is
not balanced is no part of the type and is left to the rest.
-/

namespace SchemaMarkup

/-- The type of a field as written, and what follows it. -/
structure TypeExpression where
  name : String
  nullable : Bool
  /-- What stands in the parentheses, if there are any. -/
  inner : Option Text
  rest : Text
deriving DecidableEq, Repr

namespace TypeExpression

/-- Takes a `?` off the start of a text. -/
def readMark : Text -> Bool × Text
  | '?' :: rest => (true, rest)
  | text => (false, text)

/-- Takes a balanced group in parentheses off the start of a text. -/
def readInner (text : Text) : Option Text × Text :=
  match text with
  | '(' :: group =>
      match Text.readGroup '(' group with
      | some (inner, following) => (some inner, following)
      | none => (none, text)
  | _ => (none, text)

/-- Reads a type from the start of a text, which has to start with a name. -/
def read? (text : Text) : Option TypeExpression :=
  let name : Text := text.takeWhile isNameCharacter
  if name.isEmpty then
    none
  else
    let (before, afterBefore) := readMark (text.dropWhile isNameCharacter)
    let (inner, afterInner) := readInner afterBefore
    let (behind, rest) := readMark afterInner
    some { name := String.ofList name, nullable := before || behind, inner, rest := rest.trim }

end TypeExpression

end SchemaMarkup
