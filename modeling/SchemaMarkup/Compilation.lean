import SchemaMarkup.Classification.Registry
import SchemaMarkup.Inheritance.Resolution
import SchemaMarkup.Reading.Document
import SchemaMarkup.Validation

/-!
# Compilation

A source is read, its inheritance resolved, its fields classified and its
references validated. A fault of the source ends the compilation with one finding.
Everything else that is found is collected: errors among it would end the
compilation as well, and whether warnings are acceptable is up to the caller.
-/

namespace SchemaMarkup

namespace Document

/-- The document resolved, classified and validated, with the warnings in that order. -/
def analyze (document : Document) : Except SchemaError (Document × List Diagnostic) := do
  let (resolved, repairs) <- document.resolveInheritance
  let (classified, rejections) := Registry.standard.classifyDocument resolved
  return (classified, repairs ++ rejections ++ Validator.checkAll Validator.standard classified)

end Document

/-- How to compile a source. -/
structure CompilerOptions extends ReadingOptions where
  /-- Whether a warning ends the compilation. -/
  failsOnWarnings : Bool := false
deriving DecidableEq, Repr

/-- Why a source was not compiled. -/
inductive CompileError where
  /-- The source could not be read. -/
  | unreadable (found : List Diagnostic)
  /-- The document could not be resolved. -/
  | unresolvable (found : List Diagnostic)
  /-- There are warnings and none are accepted. -/
  | warnings (found : List Diagnostic)
deriving DecidableEq, Repr

namespace CompileError

/-- The findings that ended the compilation. -/
def diagnostics : CompileError -> List Diagnostic
  | .unreadable found => found
  | .unresolvable found => found
  | .warnings found => found

/-- The wording of the error. -/
def message : CompileError -> String
  | .unreadable found => s!"Parse errors: {found.length} errors found"
  | .unresolvable found => s!"Semantic errors: {found.length} errors found"
  | .warnings found => s!"Compilation produced {found.length} warnings"

end CompileError

/-- A compiled document and the warnings in the order in which they arose. -/
structure Compiled where
  document : Document
  warnings : List Diagnostic
deriving DecidableEq

/-- Compiles a source. -/
def compile (options : CompilerOptions) (source : Text) : Except CompileError Compiled := do
  let (read, unknownSections) <-
    (Document.read options.toReadingOptions source).mapError fun fault =>
      .unreadable [fault.diagnostic]
  let (document, found) <- read.analyze.mapError fun fault => .unresolvable [fault.diagnostic]
  let warnings := unknownSections ++ found
  if Diagnostic.anyError warnings then
    throw (.unresolvable (Diagnostic.errors warnings))
  if options.failsOnWarnings && !warnings.isEmpty then
    throw (.warnings warnings)
  return { document, warnings }

end SchemaMarkup
