import SchemaMarkup.Grammar.Header
import SchemaMarkup.Grammar.EnumValue
import SchemaMarkup.Reading.Body
import SchemaMarkup.Schema.Entity

/-!
# Reading enumerations

The body of an enumeration lists its values. A section heading names the group of
the values below it, quotes add to the description, and an item that starts with
`@` adds attributes. An enumeration inherits nothing.
-/

namespace SchemaMarkup

/-- The fault of a line nested under nothing. -/
def orphanError (line : Line) : SchemaError :=
  .structural (.orphan (String.ofList line.content)) line.location

namespace EnumValue

/-- The value with one property set. -/
def setProperty (declared : EnumValue) (key value : Text) : Except LineFault EnumValue :=
  let isKey := fun (name : String) => keysMatch key name.toList
  let text := value.unquote.nonBlank?
  if isKey "description" || isKey "desc" then .ok { declared with description := text }
  else if isKey "value" then .ok { declared with value := text }
  else if isKey "group" then .ok { declared with group := text }
  else if isKey "label" then .ok { declared with label := text }
  else .error (.unknownEnumValueProperty (String.ofList key))

/-- The value refined by a nested line: a paragraph of its description or a property. -/
def refine (declared : EnumValue) (line : Line) : Except SchemaError EnumValue :=
  match line.kind with
  | .quote _ =>
      .ok { declared with description := appendParagraph declared.description line.content }
  | _ =>
      match line.content.splitKeyValue? with
      | some (key, value) => atLocation line.location (declared.setProperty key value)
      | none => .error (orphanError line)

end EnumValue

namespace Enumeration

/-- An enumeration of which some entries have been read, and the group they have reached. -/
structure Progress where
  enumeration : Enumeration
  group : Option String := none

/-- The enumeration with a line nested under an attribute line, which only a quote can be. -/
def addLoose (enumeration : Enumeration) (line : Line) : Except SchemaError Enumeration :=
  match line.kind with
  | .quote _ =>
      .ok { enumeration with
        description := appendParagraph enumeration.description line.content }
  | _ => .error (orphanError line)

/-- The enumeration with the attributes of an attribute line. -/
def addAttributes (enumeration : Enumeration) (line : Line) : Except SchemaError Enumeration :=
  atLocation line.location do
    let attributes <- asLineFault line.content.callRun
    return { enumeration with attributes := enumeration.attributes ++ attributes }

/-- The enumeration with one more value. -/
def addValue (enumeration : Enumeration) (group : Option String) (line : Line)
    (nested : List Line) : Except SchemaError Enumeration := do
  let declared <- atLocation line.location (EnumValue.read line.content)
  let grouped := { declared with group := declared.group.or group }
  let value <- nested.foldlM EnumValue.refine grouped
  if enumeration.values.any fun other => other.name == value.name then
    throw (.duplicateField enumeration.name value.name line.location)
  return { enumeration with values := enumeration.values ++ [value] }

/-- Reads one more entry. -/
def Progress.add (progress : Progress) (entry : Entry) : Except SchemaError Progress :=
  match entry with
  | .sectionHeading line => .ok { progress with group := line.content.nonBlank? }
  | .quote line => do
      let enumeration <- progress.enumeration.addLoose line
      return { progress with enumeration }
  | .item depth line nested => do
      if 1 < depth then
        throw (orphanError line)
      if line.content.head? == some '@' then
        let attributed <- progress.enumeration.addAttributes line
        let enumeration <- nested.foldlM addLoose attributed
        return { progress with enumeration }
      else
        let enumeration <- progress.enumeration.addValue progress.group line nested
        return { progress with enumeration }

/-- Whether the lines nested under an item are read with it. Those under an attribute line are
not. -/
def ownsNested (line : Line) : Bool :=
  line.content.head? != some '@'

/-- The enumeration that a header declares by itself. It may inherit nothing. -/
def ofHeader (header : Header) (location : Location) : Except SchemaError Enumeration := do
  if let parent :: _ := header.inherits then
    throw (.invalidInheritance (.enumerationInherits header.name parent) location)
  return {
    name := header.name
    label := header.label
    description := header.description
    attributes := header.attributes
    location }

/-- Reads an enumeration from its header and the lines between a cursor and a stop. -/
def assemble (header : Header) (location : Location) (stop : Nat) (cursor : Cursor) :
    Except SchemaError Enumeration := do
  let start <- ofHeader header location
  let progress <- cursor.readBody ownsNested Progress.add stop { enumeration := start }
  return progress.enumeration

end Enumeration

end SchemaMarkup
