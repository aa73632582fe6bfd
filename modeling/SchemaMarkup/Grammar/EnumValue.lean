import SchemaMarkup.Diagnostic.SchemaError
import SchemaMarkup.Grammar.Annotation
import SchemaMarkup.Schema.Field

/-!
# Enumeration values

    Name(Label) = value @group(G) "description"

The same form is an item of an enumeration and an option of a field of type
`enum(...)`, where options stand between `|` or, if there is none, between commas.
The description may also stand behind a `#`.
-/

namespace SchemaMarkup

namespace EnumValue

/-- Reads an enumeration value. -/
def read (text : Text) : Except LineFault EnumValue := do
  let (body, description) := text.splitDescription
  asLineFault body.checkBalance
  let annotated <- asLineFault body.splitSemantic
  let (body, trailing) :=
    if description.isSome || annotated.quoted.isSome then (annotated.before, none)
    else annotated.before.takeTrailingQuoted
  let (head, value) :=
    match body.cutAt '=' with
    | some cut => (cut.before, cut.following.unquote.nonBlank?)
    | none => (body, none)
  match head.splitNameLabel? with
  | none => .error (.invalidEnumValue (String.ofList head.trim))
  | some (name, label) =>
      let group := (annotated.attributes.find? (·.isNamed "group")).bind (·.positional.head?)
      .ok {
        name, label, value
        description := (description.or annotated.quoted).or trailing
        group := group.map fun argument => String.ofList (Text.unquote argument.toList) }

/-- Reads the options of a field of type `enum(...)`. -/
def readOptions (text : Text) : Except LineFault (List EnumValue) :=
  (text.pieces (if (text.cutAt '|').isSome then '|' else ',')).mapM read

end EnumValue

end SchemaMarkup
