import SchemaMarkup.Diagnostic.Location

/-!
# Diagnostics

A diagnostic is one finding about a source: how grave it is, a code that stays the
same when its wording changes, the wording, and the lines it is about. The codes
are grouped by the thousand: the form of lines, names, inheritance, attributes.
-/

namespace SchemaMarkup

/-- How grave a finding is. -/
inductive Severity where
  | error
  | warning
  | info
  | hint
deriving DecidableEq, Repr

namespace Severity

/-- The word for the severity. -/
def name : Severity -> String
  | .error => "error"
  | .warning => "warning"
  | .info => "info"
  | .hint => "hint"

/-- The place of the severity in sorted listings: errors come first. -/
def rank : Severity -> Nat
  | .error => 0
  | .warning => 1
  | .info => 2
  | .hint => 3

end Severity

/-- What a finding is about. -/
inductive Code where
  | structuralParseError
  | unterminatedDelimiter
  | missingType
  | invalidLength
  | unknownSection
  | duplicateEntity
  | duplicateField
  | unknownReference
  | unknownRelationTarget
  | unknownIndexField
  | unknownForeignKeyTarget
  | cycleDetected
  | duplicateDefaultEntity
  | invalidInheritance
  | invalidAttributeArguments
deriving DecidableEq, Repr

namespace Code

/-- Every code, in the order of its number. -/
def all : List Code :=
  [.structuralParseError, .unterminatedDelimiter, .missingType, .invalidLength, .unknownSection,
   .duplicateEntity, .duplicateField, .unknownReference, .unknownRelationTarget,
   .unknownIndexField, .unknownForeignKeyTarget, .cycleDetected, .duplicateDefaultEntity,
   .invalidInheritance, .invalidAttributeArguments]

/-- The number by which the code is reported. -/
def number : Code -> Nat
  | .structuralParseError => 1
  | .unterminatedDelimiter => 2
  | .missingType => 3
  | .invalidLength => 4
  | .unknownSection => 5
  | .duplicateEntity => 1001
  | .duplicateField => 1002
  | .unknownReference => 1003
  | .unknownRelationTarget => 1004
  | .unknownIndexField => 1005
  | .unknownForeignKeyTarget => 1006
  | .cycleDetected => 2001
  | .duplicateDefaultEntity => 2002
  | .invalidInheritance => 2003
  | .invalidAttributeArguments => 3001

/-- The code that is reported by a number. -/
def ofNumber? (number : Nat) : Option Code :=
  all.find? fun code => code.number == number

/-- Every code is found again by its number. -/
theorem ofNumber?_number (code : Code) : ofNumber? code.number = some code := by
  cases code <;> rfl

end Code

/-- One finding about a source. -/
structure Diagnostic where
  severity : Severity
  code : Code
  message : String
  location : Location := .unknown
  /-- Further lines that the finding is about, each with a remark. -/
  related : List (Location × String) := []
deriving DecidableEq, Repr

namespace Diagnostic

/-- A removed edge of an inheritance cycle. -/
def cycleDetected (entity removedParent : String) (location : Location) : Diagnostic where
  severity := .warning
  code := .cycleDetected
  message :=
    s!"Inheritance cycle detected: removed '{removedParent}' from the parents of '{entity}'"
  location := location

/-- A relation that points at no model or interface. -/
def unknownRelationTarget (entity target : String) (location : Location) : Diagnostic where
  severity := .warning
  code := .unknownRelationTarget
  message := s!"Relation on '{entity}' targets unknown entity '{target}'"
  location := location

/-- An index over a field that the entity does not have. -/
def unknownIndexField (entity index field : String) (location : Location) : Diagnostic where
  severity := .warning
  code := .unknownIndexField
  message := s!"Index '{index}' on '{entity}' references unknown field '{field}'"
  location := location

/-- A foreign key that points at no model. -/
def unknownForeignKeyTarget (field target : String) (location : Location) : Diagnostic where
  severity := .warning
  code := .unknownForeignKeyTarget
  message := s!"Foreign key '{field}' references unknown entity '{target}'"
  location := location

/-- A field attribute whose arguments were rejected. -/
def invalidAttributeArguments (token reason : String) (location : Location) : Diagnostic where
  severity := .warning
  code := .invalidAttributeArguments
  message := s!"Invalid arguments for attribute '{token}': {reason}"
  location := location

/-- A section whose name is not known. -/
def unknownSection (sectionName : String) (location : Location) : Diagnostic where
  severity := .warning
  code := .unknownSection
  message := s!"Unknown section '{sectionName}', its lines are ignored"
  location := location

/-- The finding with one more related line. -/
def withRelated (diagnostic : Diagnostic) (location : Location) (remark : String) : Diagnostic :=
  { diagnostic with related := diagnostic.related ++ [(location, remark)] }

/-- The finding as plain text: one line, and one more for each related line. -/
def display (diagnostic : Diagnostic) : String :=
  let head :=
    s!"{diagnostic.severity.name}: {diagnostic.message} (at line {diagnostic.location.line})"
  diagnostic.related.foldl
    (fun text (location, remark) => text ++ s!"\n  note: {remark} (at line {location.line})") head

/-- The findings that are errors. -/
def errors (diagnostics : List Diagnostic) : List Diagnostic :=
  diagnostics.filter fun diagnostic => diagnostic.severity == .error

/-- The findings that are warnings. -/
def warnings (diagnostics : List Diagnostic) : List Diagnostic :=
  diagnostics.filter fun diagnostic => diagnostic.severity == .warning

/-- Whether some finding is an error. -/
def anyError (diagnostics : List Diagnostic) : Bool :=
  diagnostics.any fun diagnostic => diagnostic.severity == .error

/-- Whether some finding carries the code. -/
def anyWithCode (diagnostics : List Diagnostic) (code : Code) : Bool :=
  diagnostics.any fun diagnostic => diagnostic.code == code

/-- Whether one finding is listed no later than another: by severity, then by line. -/
def listedBefore (first second : Diagnostic) : Bool :=
  if first.severity.rank == second.severity.rank then
    first.location.line <= second.location.line
  else
    first.severity.rank < second.severity.rank

/-- The findings by severity and then by line; equal ones keep their order. -/
def sorted (diagnostics : List Diagnostic) : List Diagnostic :=
  diagnostics.mergeSort listedBefore

/-- How many findings of either grave kind there are. -/
def summary (diagnostics : List Diagnostic) : String :=
  if diagnostics.isEmpty then
    "No issues found"
  else
    s!"{(errors diagnostics).length} errors, {(warnings diagnostics).length} warnings"

end Diagnostic

end SchemaMarkup
