import SchemaMarkup.Text.Cut

/-!
# Attributes

An attribute is a call, `name` or `name(arguments)`, that a line carries after an
`@` or inside square brackets. It is kept as written; what an argument means is
asked of the attribute when it is interpreted.
-/

namespace SchemaMarkup

/-- A call as written in the source. -/
structure Attribute where
  name : String
  /-- The arguments, trimmed; empty ones are left out. -/
  arguments : List String
  /-- The text of the call from its name to its closing parenthesis. -/
  raw : String
deriving DecidableEq, Repr

/-- Splits an argument `key: value` or `key = value`, where the key is an identifier.
A comparison `a == b` is no such argument. -/
def splitNamedArgument? (argument : Text) : Option (Text × Text) :=
  let isSign := fun character => character == ':' || character == '='
  match argument.dropWhile fun character => !isSign character with
  | [] => none
  | _ :: following =>
      let key : Text := Text.trim (argument.takeWhile fun character => !isSign character)
      let value : Text := Text.trim following
      if key.isIdentifier && value.head? != some '=' then some (key, value) else none

namespace Attribute

/-- Whether the attribute carries the name, in any case. -/
def isNamed (call : Attribute) (name : String) : Bool :=
  equalIgnoringCase call.name name

/-- The arguments that carry no key. -/
def positional (call : Attribute) : List String :=
  call.arguments.filter fun argument => (splitNamedArgument? argument.toList).isNone

/-- The unquoted value of the first argument under a key. -/
def named? (call : Attribute) (key : String) : Option String :=
  call.arguments.findSome? fun argument =>
    match splitNamedArgument? argument.toList with
    | some (name, value) =>
        if keysMatch name key.toList then some (String.ofList value.unquote) else none
    | none => none

end Attribute

end SchemaMarkup
